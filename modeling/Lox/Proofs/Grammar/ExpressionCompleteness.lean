import Lox.Proofs.Grammar.ExpressionRules
import Lox.Proofs.Grammar.Passes

/-!
# Expressions that are derived are read

In front of tokens that are derived from a symbol, the rule for the symbol reads these tokens, finds
no error, and has the tree of the derivation as its result. What follows must not go on with the
expression.

The operators of a level associate to the left, and so do calls, but the rules read the leftmost
operand first. So what is proved of these symbols, by induction on derivations, is that the rule
goes on as the reader of the operators, or of the calls, that may follow.

## Main definitions

* `ExpressionSymbol.continues s`: the tokens with which what is derived from `s` could go on
* `ExpressionSymbol.Complete`: what the rules do in front of tokens derived from a symbol

## Main results

* `DerivesExpression.complete`: all derivations are read as they should be
* `DerivesExpression.reads_expression`: expressions that are derived are read
-/

namespace Lox.Grammar

open Reader

variable {d : Nat}

/-! ## Tokens that go on with an expression -/

/-- The kinds of the tokens with which an expression of the symbol could go on. -/
def ExpressionSymbol.continues : ExpressionSymbol → List Kind
  | primary => []
  | call | unary => [.leftParen]
  | factor => [.slash, .star, .leftParen]
  | term => [.minus, .plus, .slash, .star, .leftParen]
  | comparison =>
    [.greater, .greaterEqual, .less, .lessEqual, .minus, .plus, .slash, .star, .leftParen]
  | equality =>
    [.bangEqual, .equalEqual, .greater, .greaterEqual, .less, .lessEqual, .minus, .plus, .slash,
      .star, .leftParen]
  | conjunction =>
    [.andKw, .bangEqual, .equalEqual, .greater, .greaterEqual, .less, .lessEqual, .minus, .plus,
      .slash, .star, .leftParen]
  | disjunction =>
    [.orKw, .andKw, .bangEqual, .equalEqual, .greater, .greaterEqual, .less, .lessEqual, .minus,
      .plus, .slash, .star, .leftParen]
  | expression =>
    [.equal, .orKw, .andKw, .bangEqual, .equalEqual, .greater, .greaterEqual, .less, .lessEqual,
      .minus, .plus, .slash, .star, .leftParen]
  | arguments =>
    [.comma, .equal, .orKw, .andKw, .bangEqual, .equalEqual, .greater, .greaterEqual, .less,
      .lessEqual, .minus, .plus, .slash, .star, .leftParen]

/-- An operation goes on with an operator, or as its last operand does. -/
theorem ExpressionSymbol.continues_of_operand {s s' : ExpressionSymbol}
    (h : s.operand? = some s') : s.continues = s.operators ++ s'.continues := by
  cases s <;> simp only [operand?, reduceCtorEq, Option.some.injEq] at h <;> subst h <;> rfl

/-- No operand goes on with an operator that it is an operand of. -/
theorem ExpressionSymbol.operator_notMem_continues {s s' : ExpressionSymbol} {k : Kind}
    (h : s.operand? = some s') (hk : k ∈ s.operators) : k ∉ s'.continues := by
  cases s <;> simp only [operand?, reduceCtorEq, Option.some.injEq] at h <;> subst h <;>
    revert k <;> decide

/-- What is derived from a symbol begins with no token of another kind. -/
theorem DerivesExpression.avoids {s : ExpressionSymbol} {ts : List Token} {es : List Node}
    {ks : List Kind} (h : DerivesExpression s ts es) (hk : ∀ k ∈ ks, k ∉ s.starts)
    (rest : List Token) : Avoids ks (ts ++ rest) := by
  obtain ⟨t, us, rfl, ht⟩ := h.head
  rw [List.cons_append, avoids_cons]
  exact fun hkt => hk t.kind hkt ht

/-! ## Completeness -/

/-- What the rule for the symbol `s` of a binary operation does in front of tokens that are derived
from it, if its operands are those of the symbol `s'`. -/
def ExpressionSymbol.CompleteOperation (d : Nat) (s s' : ExpressionSymbol) (ts : List Token)
    (es : List Node) : Prop :=
  ∀ e l ls fuel, es = [e] → Describes (l :: ls) s → ls.length ≤ 5 →
    20 * ts.length + 4 + ls.length ≤ fuel → ∃ left, fuel ≤ left + ts.length ∧
    Passes d ts (Avoids s'.continues) (Grammar.operation fuel (l :: ls))
      (Grammar.operands left l ls e)

/-- What the rule for the symbol does in front of tokens that are derived from it. -/
def ExpressionSymbol.Complete (d : Nat) (s : ExpressionSymbol) (ts : List Token)
    (es : List Node) : Prop :=
  match s with
  | .expression => ∀ e fuel, es = [e] → 20 * ts.length + 10 ≤ fuel →
    Reads d ts (Avoids (continues .expression)) (Grammar.expression fuel) e
  | .unary => ∀ e fuel, es = [e] → 20 * ts.length + 2 ≤ fuel →
    Reads d ts (Avoids (continues .unary)) (Grammar.prefixed fuel) e
  | .call => ∀ e fuel, es = [e] → 20 * ts.length + 1 ≤ fuel → ∃ left, fuel ≤ left + ts.length ∧
    Passes d ts Anything (Grammar.primary fuel >>= Grammar.calls fuel) (Grammar.calls left e)
  | .primary => ∀ e fuel, es = [e] → 20 * ts.length + 1 ≤ fuel →
    Reads d ts Anything (Grammar.primary fuel) e
  | .arguments => ∀ count fuel, count + es.length ≤ maxArguments → 20 * ts.length + 11 ≤ fuel →
    Reads d ts (Avoids (continues .arguments)) (Grammar.arguments fuel count) es
  | s => ∀ s', s.operand? = some s' → CompleteOperation d s s' ts es

namespace ExpressionSymbol

variable {s s' : ExpressionSymbol} {ts : List Token} {es : List Node} {e : Node} {fuel : Nat}

/-- The symbols of binary operations are treated alike. -/
theorem complete_iff (h : s.operand? = some s') :
    Complete d s ts es ↔ CompleteOperation d s s' ts es := by
  cases s <;> simp only [operand?, reduceCtorEq, Option.some.injEq] at h <;> subst h <;>
    simp [Complete, operand?]

end ExpressionSymbol

/-- No operator of the level is next. -/
theorem reads_operands {l : Level} {ls : List Level} {s : ExpressionSymbol} {e : Node} {fuel : Nat}
    (hs : Describes (l :: ls) s) (hf : 0 < fuel) :
    Reads d [] (Avoids s.operators) (operands fuel l ls e) e := by
  obtain ⟨fuel, rfl⟩ := Nat.exists_eq_add_of_lt hf
  rw [Nat.zero_add, operands]
  refine Passes.bind reads_acceptIf?_none (fun rest h t ht => ?_) .refl
  have := mt (hs.1 t.kind).mp (h t ht)
  simpa using this

theorem reads_acceptLiteral? {t : Token} {v : Value} (h : literal? t = some v) :
    Reads d [t] Anything acceptLiteral? (some v) := by
  refine Passes.bind (reads_acceptIf? (t := t) ?_) (fun _ h => h) (h ▸ .refl)
  unfold literal? at h
  split at h <;> simp_all

theorem reads_acceptLiteral?_none :
    Reads d [] (Avoids [.falseKw, .trueKw, .nilKw, .number, .string]) acceptLiteral? none := by
  refine Passes.bind reads_acceptIf?_none (fun rest h t ht => ?_) .refl
  have := h t ht
  cases hk : t.kind <;> simp_all

namespace ExpressionSymbol.Complete

variable {s s' : ExpressionSymbol} {ts : List Token} {es : List Node} {e : Node} {fuel : Nat}

/-- An operation is read up to the operators that follow it. -/
theorem reads_operation {ls : List Level} (h : Complete d s ts [e])
    (hs : Describes ls s) (hl : ls.length ≤ 6) (hf : 20 * ts.length + 3 + ls.length ≤ fuel) :
    Reads d ts (Avoids s.continues) (Grammar.operation fuel ls) e := by
  cases ls with
  | nil =>
    obtain rfl : s = .unary := hs
    obtain ⟨fuel, rfl⟩ := Nat.exists_eq_add_of_le' (show 1 ≤ fuel by omega)
    rw [Grammar.operation]
    exact h e fuel rfl (by simp only [List.length_nil] at hf; omega)
  | cons l ls =>
    have hs' := hs
    obtain ⟨-, -, s', ho, -⟩ := hs'
    simp only [List.length_cons] at hl hf
    obtain ⟨left, hle, hp⟩ := (complete_iff ho).mp h e l ls fuel rfl hs (by omega) (by omega)
    rw [continues_of_operand ho]
    have hr : Reads d [] (Avoids (s.operators ++ s'.continues)) (operands left l ls e) e :=
      (reads_operands hs (by omega)).mono fun _ h => h.mono (List.subset_append_left _ _)
    simpa using hp.trans (fun _ h => h.mono (List.subset_append_right _ _)) hr

/-! ### Operands -/

theorem literal {t : Token} {v : Value} (h : literal? t = some v) :
    Complete d .primary [t] [.lit v] := by
  intro e fuel he hf
  obtain rfl : Node.lit v = e := by simpa using he
  obtain ⟨fuel, rfl⟩ := Nat.exists_eq_add_of_le' (show 1 ≤ fuel by omega)
  rw [Grammar.primary]
  exact Passes.bind (reads_acceptLiteral? h) (fun _ _ => trivial) .refl

theorem ident {name : Token} (h : name.kind = .identifier) :
    Complete d .primary [name] [.ident name] := by
  intro e fuel he hf
  obtain rfl : Node.ident name = e := by simpa using he
  obtain ⟨fuel, rfl⟩ := Nat.exists_eq_add_of_le' (show 1 ≤ fuel by omega)
  rw [Grammar.primary]
  refine Passes.bind reads_acceptLiteral?_none (fun _ _ => by simp [h]) ?_
  exact Passes.bind (reads_accept? h) (fun _ _ => trivial) .refl

theorem group {lp rp : Token} (hlp : lp.kind = .leftParen) (h : Complete d .expression ts [e])
    (hrp : rp.kind = .rightParen) : Complete d .primary (lp :: (ts ++ [rp])) [.group e] := by
  intro e' fuel he hf
  obtain rfl : Node.group e = e' := by simpa using he
  obtain ⟨fuel, rfl⟩ := Nat.exists_eq_add_of_le' (show 1 ≤ fuel by omega)
  simp only [List.length_cons, List.length_append, List.length_nil] at hf
  rw [Grammar.primary]
  refine Passes.bind reads_acceptLiteral?_none (fun _ _ => by simp [hlp]) ?_
  refine Passes.bind reads_accept?_none (fun _ _ => by simp [hlp]) ?_
  refine Passes.bind (reads_accept hlp) (fun _ _ => trivial) ?_
  refine Passes.bind (h e fuel rfl (by omega)) (fun _ _ => by simp [hrp, continues]) ?_
  exact Passes.bind (reads_expect hrp) (fun _ _ => trivial) .refl

/-! ### Calls -/

theorem primary (h : Complete d .primary ts [e]) : Complete d .call ts [e] := by
  intro e' fuel he hf
  obtain rfl : e = e' := by simpa using he
  exact ⟨fuel, by omega, (h e fuel rfl hf).andThen⟩

/-- A callee is followed by an argument list. -/
theorem callWithout {lp rp : Token} (h : Complete d .call ts [e]) (hlp : lp.kind = .leftParen)
    (hrp : rp.kind = .rightParen) : Complete d .call (ts ++ [lp, rp]) [.call e rp []] := by
  intro e' fuel he hf
  obtain rfl : Node.call e rp [] = e' := by simpa using he
  simp only [List.length_append, List.length_cons, List.length_nil] at hf ⊢
  obtain ⟨left, hl, hp⟩ := h e fuel rfl (by omega)
  obtain ⟨left, rfl⟩ := Nat.exists_eq_add_of_le' (show 1 ≤ left by omega)
  refine ⟨left, by omega, hp.trans (fun _ _ => trivial) ?_⟩
  rw [Grammar.calls]
  refine Passes.bind (reads_accept hlp) (fun _ _ => trivial) ?_
  refine Passes.bind reads_unlessNext_none (fun _ _ => by simp [hrp]) ?_
  exact Passes.bind (reads_expect hrp) (fun _ _ => trivial) .refl

theorem callWith {us : List Token} {lp rp : Token} (h : Complete d .call ts [e])
    (hlp : lp.kind = .leftParen) (hd : DerivesExpression .arguments us es)
    (hargs : Complete d .arguments us es) (hlen : es.length ≤ maxArguments)
    (hrp : rp.kind = .rightParen) :
    Complete d .call (ts ++ lp :: (us ++ [rp])) [.call e rp es] := by
  intro e' fuel he hf
  obtain rfl : Node.call e rp es = e' := by simpa using he
  simp only [List.length_append, List.length_cons, List.length_nil] at hf ⊢
  obtain ⟨left, hl, hp⟩ := h e fuel rfl (by omega)
  obtain ⟨left, rfl⟩ := Nat.exists_eq_add_of_le' (show 1 ≤ left by omega)
  refine ⟨left, by omega, hp.trans (fun _ _ => trivial) ?_⟩
  -- arguments do not begin with a parenthesis that closes, so they are looked for
  have hus : ∀ rest, Avoids [.rightParen] (us ++ rest) := hd.avoids (by decide)
  rw [Grammar.calls]
  refine Passes.bind (reads_accept hlp) (fun _ _ => trivial) ?_
  refine Passes.bind (reads_unlessNext (hargs 0 left (by omega) (by omega)) hus)
    (fun _ _ => by simp [hrp, continues]) ?_
  exact Passes.bind (reads_expect hrp) (fun _ _ => trivial) .refl

/-! ### Operations -/

theorem call (hd : DerivesExpression .call ts [e]) (h : Complete d .call ts [e]) :
    Complete d .unary ts [e] := by
  intro e' fuel he hf
  obtain rfl : e = e' := by simpa using he
  obtain ⟨fuel, rfl⟩ := Nat.exists_eq_add_of_le' (show 1 ≤ fuel by omega)
  obtain ⟨left, hl, hp⟩ := h e fuel rfl (by omega)
  obtain ⟨left, rfl⟩ := Nat.exists_eq_add_of_le' (show 1 ≤ left by omega)
  have hts : ∀ rest, ∀ t ∈ (ts ++ rest).head?, isUnaryOperator t.kind = false := by
    obtain ⟨t, us, rfl, ht⟩ := hd.head
    revert ht
    cases hk : t.kind <;> simp [hk, starts, primaryStarts, isUnaryOperator]
  have hstop : Reads d [] (Avoids (continues .unary)) (Grammar.calls (left + 1) e) e := by
    rw [Grammar.calls]
    exact Passes.bind reads_accept_false (fun _ h => h) .refl
  rw [Grammar.prefixed]
  refine Passes.bind reads_acceptIf?_none (fun rest _ => hts rest) ?_
  simpa using hp.trans (fun _ _ => trivial) hstop

theorem unary {op : Token} (hop : op.kind = .bang ∨ op.kind = .minus)
    (h : Complete d .unary ts [e]) : Complete d .unary (op :: ts) [.unary op e] := by
  intro e' fuel he hf
  obtain rfl : Node.unary op e = e' := by simpa using he
  simp only [List.length_cons] at hf
  obtain ⟨fuel, rfl⟩ := Nat.exists_eq_add_of_le' (show 1 ≤ fuel by omega)
  have hk : isUnaryOperator op.kind = true := by
    rcases hop with h | h <;> rw [h] <;> rfl
  rw [Grammar.prefixed]
  refine Passes.bind (reads_acceptIf? hk) (fun _ _ => trivial) ?_
  exact (h e fuel rfl (by omega)).andThen

/-- The first operand of an operation is read by the rule for the tighter levels. -/
theorem operand (hs : s.operand? = some s') (hd : DerivesExpression s' ts [e])
    (h : Complete d s' ts [e]) : Complete d s ts [e] := by
  refine (complete_iff hs).mpr fun e' l ls fuel he hls hl hf => ?_
  obtain rfl : e = e' := by simpa using he
  obtain ⟨fuel, rfl⟩ := Nat.exists_eq_add_of_le' (show 1 ≤ fuel by omega)
  obtain ⟨-, -, s'', hs'', hls'⟩ := hls
  obtain rfl : s' = s'' := by simpa [hs] using hs''
  have hpos : 0 < ts.length := by
    obtain ⟨t, us, rfl, -⟩ := hd.head
    simp
  refine ⟨fuel, by omega, ?_⟩
  rw [Grammar.operation]
  exact (h.reads_operation hls' (by omega) (by omega)).andThen

/-- An operand of the tightest level is one of every level. -/
theorem of_unary {ls : List Level} (h : Complete d .unary ts [e])
    (hd : DerivesExpression .unary ts [e]) (hs : Describes ls s) :
    DerivesExpression s ts [e] ∧ Complete d s ts [e] := by
  induction ls generalizing s with
  | nil =>
    obtain rfl : s = .unary := hs
    exact ⟨hd, h⟩
  | cons l ls ih =>
    obtain ⟨-, -, s', ho, hs'⟩ := hs
    obtain ⟨hd', h'⟩ := ih hs'
    exact ⟨hd'.operand ho, h'.operand ho hd'⟩

/-- What was read so far is the left operand of the operator that follows. -/
theorem operator {us : List Token} {op : Token} {r : Node} (hs : s.operand? = some s')
    (hl : Complete d s ts [e]) (hop : op.kind ∈ s.operators) (hr : Complete d s' us [r]) :
    Complete d s (ts ++ op :: us) [s.node e op r] := by
  refine (complete_iff hs).mpr fun e' l ls fuel he hls hlen hf => ?_
  obtain rfl : s.node e op r = e' := by simpa using he
  simp only [List.length_append, List.length_cons] at hf ⊢
  obtain ⟨left, hle, hp⟩ := (complete_iff hs).mp hl e l ls fuel rfl hls hlen (by omega)
  obtain ⟨left, rfl⟩ := Nat.exists_eq_add_of_le' (show 1 ≤ left by omega)
  refine ⟨left, by omega, ?_⟩
  have hnext : ∀ rest, Avoids s'.continues (op :: us ++ rest) := fun _ => by
    simpa using operator_notMem_continues hs hop
  refine hp.trans (fun rest _ => hnext rest) ?_
  obtain ⟨hholds, hnode, s'', hs'', hls'⟩ := hls
  obtain rfl : s' = s'' := by simpa [hs] using hs''
  rw [Grammar.operands]
  refine Passes.bind (reads_acceptIf? ((hholds _).mpr hop)) (fun _ _ => trivial) ?_
  rw [← hnode]
  exact (hr.reads_operation hls' (by omega) (by omega)).andThen

/-! ### Expressions -/

theorem disjunction (h : Complete d .disjunction ts [e]) : Complete d .expression ts [e] := by
  intro e' fuel he hf
  obtain rfl : e = e' := by simpa using he
  obtain ⟨fuel, rfl⟩ := Nat.exists_eq_add_of_le' (show 1 ≤ fuel by omega)
  have hop : Reads d ts (Avoids (continues .disjunction)) (Grammar.operation fuel levels) e := by
    refine h.reads_operation describes_levels (by decide) ?_
    rw [length_levels]
    omega
  rw [Grammar.expression, ← List.append_nil ts]
  refine Passes.bind hop (fun _ h => h.mono (by simp [continues])) ?_
  exact Passes.bind reads_accept?_none (fun _ h => h.mono (by simp [continues])) .refl

/-- The target of an assignment is read as an expression. -/
theorem assign {name equals : Token} (hn : name.kind = .identifier) (heq : equals.kind = .equal)
    (h : Complete d .expression ts [e]) :
    Complete d .expression (name :: equals :: ts) [.assign name e] := by
  intro e' fuel he hf
  obtain rfl : Node.assign name e = e' := by simpa using he
  simp only [List.length_cons] at hf
  obtain ⟨fuel, rfl⟩ := Nat.exists_eq_add_of_le' (show 1 ≤ fuel by omega)
  -- the variable goes through all levels, and stands in front of the `=`
  have hd : DerivesExpression .call [name] [.ident name] := (DerivesExpression.ident hn).primary
  have hc : Complete d .unary [name] [.ident name] := (ident hn).primary.call hd
  have hop : Reads d [name] (Avoids (continues .disjunction)) (Grammar.operation fuel levels)
      (.ident name) := by
    refine (hc.of_unary hd.call describes_levels).2.reads_operation describes_levels (by decide) ?_
    rw [length_levels, List.length_singleton]
    omega
  rw [Grammar.expression]
  refine Passes.bind hop (fun _ _ => by simp [heq, continues]) ?_
  refine Passes.bind (reads_accept? heq) (fun _ _ => trivial) ?_
  exact (h e fuel rfl (by omega)).andThen

theorem argument (h : Complete d .expression ts [e]) : Complete d .arguments ts [e] := by
  intro count fuel hlen hf
  obtain ⟨fuel, rfl⟩ := Nat.exists_eq_add_of_le' (show 1 ≤ fuel by omega)
  simp only [List.length_cons, List.length_nil] at hlen
  rw [Grammar.arguments, if_neg (by omega), ← List.append_nil ts]
  refine Passes.bind (h e fuel rfl (by omega)) (fun _ h => h.mono (by simp [continues])) ?_
  exact Passes.bind reads_accept_false (fun _ h => h.mono (by simp [continues])) .refl

theorem arguments {us : List Token} {comma : Token} (h : Complete d .expression ts [e])
    (hc : comma.kind = .comma) (hes : Complete d .arguments us es) :
    Complete d .arguments (ts ++ comma :: us) (e :: es) := by
  intro count fuel hlen hf
  obtain ⟨fuel, rfl⟩ := Nat.exists_eq_add_of_le' (show 1 ≤ fuel by omega)
  simp only [List.length_append, List.length_cons] at hlen hf
  rw [Grammar.arguments, if_neg (by omega)]
  refine Passes.bind (h e fuel rfl (by omega)) (fun _ _ => by simp [hc, continues]) ?_
  refine Passes.bind (reads_accept hc) (fun _ _ => trivial) ?_
  exact (hes (count + 1) fuel (by omega) (by omega)).andThen

end ExpressionSymbol.Complete

/-- What is derived is read, if the tree is legal. -/
theorem DerivesExpression.complete {s : ExpressionSymbol} {ts : List Token} {es : List Node}
    {f : Bool} (h : DerivesExpression s ts es) (hg : Node.AllLegal f es) :
    s.Complete d ts es := by
  induction h with
  | assign hn heq _ ih => exact (ih (by simpa [Node.AllLegal, Node.Legal] using hg)).assign hn heq
  | disjunction _ ih => exact (ih hg).disjunction
  | operand hs hd ih => exact (ih hg).operand hs hd
  | operator hs _ hop _ ihl ihr =>
    obtain ⟨hgl, hgr⟩ := legal_node.mp hg.1
    exact (ihl ⟨hgl, trivial⟩).operator hs hop (ihr ⟨hgr, trivial⟩)
  | unary hop _ ih => exact (ih (by simpa [Node.AllLegal, Node.Legal] using hg)).unary hop
  | call hd ih => exact (ih hg).call hd
  | callWithout _ hlp hrp ih => exact (ih ⟨hg.1.2.1, trivial⟩).callWithout hlp hrp
  | callWith _ hlp hd hrp ih ihs =>
    obtain ⟨⟨hlen, hg, hgs⟩, -⟩ := hg
    exact (ih ⟨hg, trivial⟩).callWith hlp hd (ihs hgs) hlen hrp
  | primary _ ih => exact (ih hg).primary
  | falseLit h | trueLit h | nilLit h | numberLit h | stringLit h =>
    exact .literal (by simp [literal?, h])
  | ident hn => exact .ident hn
  | group hlp _ hrp ih => exact (ih (by simpa [Node.AllLegal, Node.Legal] using hg)).group hlp hrp
  | argument _ ih => exact (ih hg).argument
  | arguments _ hc _ ih ihs => exact (ih ⟨hg.1, trivial⟩).arguments hc (ihs hg.2)

/-- Expressions that are derived are read. -/
theorem DerivesExpression.reads_expression {ts : List Token} {e : Node} {f : Bool} {fuel : Nat}
    (h : DerivesExpression .expression ts [e]) (hg : e.Legal f) (hf : 20 * ts.length + 10 ≤ fuel) :
    Reads d ts (Avoids (ExpressionSymbol.continues .expression)) (expression fuel) e :=
  h.complete ⟨hg, trivial⟩ e fuel rfl hf

end Lox.Grammar
