import Lox.Proofs.Grammar.Derivation
import Lox.Proofs.Grammar.Meets
import Lox.Proofs.Node.WellFormed

/-!
# The rules for expressions

What each rule for expressions does: it ends, its result is a well-formed expression, and if it
finds no error then the tokens that it reads derive this expression, which is legal.

## Main definitions

* `Describes levels s`: the symbol `s` stands for the operations of these levels
* `ExpressionRules P fuel`: the specifications of the rules with this much fuel

## Main results

* `expressionRules`: the rules meet their specifications
-/

namespace Lox.Grammar

open Reader

/-! ## Levels and symbols -/

/-- The operations of the levels are those of the symbol. -/
def Describes : List Level → ExpressionSymbol → Prop
  | [], s => s = .unary
  | l :: ls, s =>
    (∀ k, l.holds k = true ↔ k ∈ s.operators) ∧ (∀ a op b, l.node a op b = s.node a op b) ∧
      ∃ s', s.operand? = some s' ∧ Describes ls s'

theorem describes_levels : Describes levels .disjunction := by
  simp only [levels, Describes, ExpressionSymbol.operand?, Option.some.injEq, exists_eq_left']
  refine ⟨?_, fun _ _ _ => rfl, ?_, fun _ _ _ => rfl, ?_, fun _ _ _ => rfl, ?_, fun _ _ _ => rfl,
    ?_, fun _ _ _ => rfl, ?_, fun _ _ _ => rfl, trivial⟩ <;> intro k <;> cases k <;> decide

theorem length_levels : levels.length = 6 := rfl

/-- A binary operation is a well-formed expression if its operands are. -/
theorem isExpression_node {P : Token → Prop} {s : ExpressionSymbol} {l r : Node} {op : Token}
    (hop : op.kind ∈ s.operators) (hP : P op) (hl : l.IsExpression P) (hr : r.IsExpression P) :
    (s.node l op r).IsExpression P := by
  unfold ExpressionSymbol.node
  split
  · rename_i h
    refine ⟨hP, ?_, hl, hr⟩
    rcases h with rfl | rfl <;> simp [ExpressionSymbol.operators] at hop <;> tauto
  · refine ⟨hP, ?_, hl, hr⟩
    cases s <;> simp [ExpressionSymbol.operators, binaryKinds] at * <;> tauto

theorem legal_node {s : ExpressionSymbol} {l r : Node} {op : Token} {f : Bool} :
    (s.node l op r).Legal f ↔ l.Legal f ∧ r.Legal f := by
  unfold ExpressionSymbol.node
  split <;> simp [Node.Legal]

/-! ## The rules -/

/-- The specifications of the rules for expressions. The fuel that a rule needs depends on the
number of tokens and on its place in the order of precedence. -/
structure ExpressionRules (P : Token → Prop) (fuel : Nat) : Prop where
  expression {n d : Nat} : 20 * n + 10 ≤ fuel →
    (expression fuel).Meets P n d (fun ts e => ts ≠ [] ∧ e.IsExpression P)
      (fun ts e => DerivesExpression .expression ts [e] ∧ e.Legal (0 < d))
  operation {n d : Nat} {ls : List Level} {s : ExpressionSymbol} :
    Describes ls s → ls.length ≤ 6 → 20 * n + 3 + ls.length ≤ fuel →
    (operation fuel ls).Meets P n d (fun ts e => ts ≠ [] ∧ e.IsExpression P)
      (fun ts e => DerivesExpression s ts [e] ∧ e.Legal (0 < d))
  operands {n d : Nat} {l : Level} {ls : List Level} {s : ExpressionSymbol} {left : Node} :
    Describes (l :: ls) s → ls.length ≤ 6 → 20 * n + 1 ≤ fuel → left.IsExpression P →
    (operands fuel l ls left).Meets P n d (fun _ e => e.IsExpression P)
      (fun us e => ∀ ts, DerivesExpression s ts [left] ∧ left.Legal (0 < d) →
        DerivesExpression s (ts ++ us) [e] ∧ e.Legal (0 < d))
  prefixed {n d : Nat} : 20 * n + 2 ≤ fuel →
    (prefixed fuel).Meets P n d (fun ts e => ts ≠ [] ∧ e.IsExpression P)
      (fun ts e => DerivesExpression .unary ts [e] ∧ e.Legal (0 < d))
  calls {n d : Nat} {callee : Node} : 20 * n + 1 ≤ fuel → callee.IsExpression P →
    (calls fuel callee).Meets P n d (fun _ e => e.IsExpression P)
      (fun us e => ∀ ts, DerivesExpression .call ts [callee] ∧ callee.Legal (0 < d) →
        DerivesExpression .call (ts ++ us) [e] ∧ e.Legal (0 < d))
  arguments {n d count : Nat} : 20 * n + 11 ≤ fuel →
    (arguments fuel count).Meets P n d (fun ts es => ts ≠ [] ∧ Node.AllExpressions P es)
      (fun ts es => DerivesExpression .arguments ts es ∧ count + es.length ≤ maxArguments ∧
        Node.AllLegal (0 < d) es)
  primary {n d : Nat} : 20 * n + 1 ≤ fuel →
    (primary fuel).Meets P n d (fun ts e => ts ≠ [] ∧ e.IsExpression P)
      (fun ts e => DerivesExpression .primary ts [e] ∧ e.Legal (0 < d))

variable {P : Token → Prop} {fuel n d : Nat}

namespace ExpressionRules

/-- An assignment is one only to a variable; anything else in its place is an error. -/
theorem expression_succ (ih : ExpressionRules P fuel) (hf : 20 * n + 10 ≤ fuel + 1) :
    (Grammar.expression (fuel + 1)).Meets P n d (fun ts e => ts ≠ [] ∧ e.IsExpression P)
      (fun ts e => DerivesExpression .expression ts [e] ∧ e.Legal (0 < d)) := by
  rw [Grammar.expression]
  refine Meets.bind (ih.operation describes_levels (by decide) (by rw [length_levels]; omega))
    fun ts left hl ⟨hts, hleft⟩ => ?_
  refine MeetsOn.bind (meets_accept? _) fun us o hlu ⟨_, hus, ho⟩ => ?_
  cases o with
  | none =>
    obtain rfl : us = [] := hus
    refine MeetsOn.pure (fun _ => ⟨by simp [hts], hleft⟩) ?_
    rintro - - ⟨hd, hg⟩
    exact ⟨by simpa using hd.disjunction, hg⟩
  | some equals =>
    obtain rfl : us = [equals] := hus
    obtain ⟨hP, hk⟩ := ho equals rfl
    simp only [List.length_singleton] at hlu
    refine Meets.bind (ih.expression (by simp only [List.length_singleton]; omega))
      fun vs value _ ⟨_, hvalue⟩ => ?_
    split
    -- only a variable by itself has the tree of a variable
    · rename_i name
      refine MeetsOn.pure (fun _ => ⟨by simp, hleft, hvalue⟩) ?_
      rintro - ⟨hd, hg⟩ - ⟨hd', -⟩
      obtain ⟨rfl, hn⟩ := hd'.of_ident (by simp)
      exact ⟨by simpa using hd.assign hn hk, hg⟩
    -- an error is recorded, so nothing has to be derived
    · refine MeetsOn.bind (meets_recordAt _ _) fun ws _ _ _ =>
        MeetsOn.pure (fun _ => ⟨by simp, hvalue⟩) ?_
      exact fun _ h => h.elim

/-- An operation is an operand and the operators that follow it. -/
theorem operation_succ (ih : ExpressionRules P fuel) {ls : List Level} {s : ExpressionSymbol}
    (hs : Describes ls s) (hl : ls.length ≤ 6) (hf : 20 * n + 3 + ls.length ≤ fuel + 1) :
    (Grammar.operation (fuel + 1) ls).Meets P n d (fun ts e => ts ≠ [] ∧ e.IsExpression P)
      (fun ts e => DerivesExpression s ts [e] ∧ e.Legal (0 < d)) := by
  cases ls with
  | nil =>
    obtain rfl : s = .unary := hs
    rw [Grammar.operation]
    exact ih.prefixed (by simp only [List.length_nil] at hf; omega)
  | cons l ls =>
    have hs' := hs
    obtain ⟨-, -, s', ho, hd⟩ := hs'
    simp only [List.length_cons] at hl hf
    rw [Grammar.operation]
    refine Meets.bind (ih.operation hd (by omega) (by omega)) fun ts left _ ⟨hts, hleft⟩ => ?_
    refine (ih.operands hs (by omega) (by omega) hleft).mono ?_ ?_
    · exact fun us _ e he => ⟨by simp [hts], he⟩
    · exact fun us _ e _ h ⟨hd, hg⟩ => h ts ⟨hd.operand ho, hg⟩

/-- Each operator takes what was read before it as its left operand. -/
theorem operands_succ (ih : ExpressionRules P fuel) {l : Level} {ls : List Level}
    {s : ExpressionSymbol} {left : Node} (hs : Describes (l :: ls) s) (hl : ls.length ≤ 6)
    (hf : 20 * n + 1 ≤ fuel + 1) (hleft : left.IsExpression P) :
    (Grammar.operands (fuel + 1) l ls left).Meets P n d (fun _ e => e.IsExpression P)
      (fun us e => ∀ ts, DerivesExpression s ts [left] ∧ left.Legal (0 < d) →
        DerivesExpression s (ts ++ us) [e] ∧ e.Legal (0 < d)) := by
  have hs' := hs
  obtain ⟨hh, hn, s', ho, hd⟩ := hs'
  rw [Grammar.operands]
  refine MeetsOn.bind (meets_acceptIf? _) fun us o hlu ⟨_, hus, hop⟩ => ?_
  cases o with
  | none =>
    obtain rfl : us = [] := hus
    exact MeetsOn.pure (fun _ => hleft) fun _ _ ts h => by simpa using h
  | some op =>
    obtain rfl : us = [op] := hus
    obtain ⟨hP, hk⟩ := hop op rfl
    have hk := (hh op.kind).mp hk
    simp only [List.length_singleton] at hlu
    refine Meets.bind (ih.operation hd (by omega) (by simp only [List.length_singleton]; omega))
      fun vs right _ ⟨_, hright⟩ => ?_
    rw [hn]
    refine (ih.operands hs hl (by simp only [List.length_singleton]; omega)
      (isExpression_node hk hP hleft hright)).mono (fun _ _ _ he => he) ?_
    rintro ws - e - h ⟨hd', hg'⟩ - ts ⟨hd, hg⟩
    simpa using h (ts ++ op :: vs) ⟨hd.operator ho hk hd', legal_node.mpr ⟨hg, hg'⟩⟩

/-- Unary operators stand in front of calls. -/
theorem prefixed_succ (ih : ExpressionRules P fuel) (hf : 20 * n + 2 ≤ fuel + 1) :
    (Grammar.prefixed (fuel + 1)).Meets P n d (fun ts e => ts ≠ [] ∧ e.IsExpression P)
      (fun ts e => DerivesExpression .unary ts [e] ∧ e.Legal (0 < d)) := by
  rw [Grammar.prefixed]
  refine MeetsOn.bind (meets_acceptIf? _) fun us o hlu ⟨_, hus, hop⟩ => ?_
  cases o with
  | some op =>
    obtain rfl : us = [op] := hus
    obtain ⟨hP, hk⟩ := hop op rfl
    have hk : op.kind = .bang ∨ op.kind = .minus := by
      revert hk
      cases op.kind <;> simp [isUnaryOperator]
    simp only [List.length_singleton] at hlu
    refine Meets.bind (ih.prefixed (by simp only [List.length_singleton]; omega))
      fun ts e _ ⟨_, he⟩ => MeetsOn.pure (fun _ => ⟨by simp, hP, hk, he⟩) ?_
    rintro - ⟨hd, hg⟩ -
    exact ⟨by simpa using hd.unary hk, hg⟩
  | none =>
    obtain rfl : us = [] := hus
    refine Meets.bind (ih.primary (by simp only [List.length_nil]; omega))
      fun ts callee hlt ⟨hts, hcallee⟩ => ?_
    refine (ih.calls (by simp only [List.length_nil]; omega) hcallee).mono ?_ ?_
    · exact fun _ _ _ he => ⟨by simp [hts], he⟩
    · rintro us - e - h ⟨hd, hg⟩ -
      obtain ⟨hd', hg'⟩ := h ts ⟨hd.primary, hg⟩
      exact ⟨by simpa using hd'.call, hg'⟩

/-- Each argument list takes what was read before it as its callee. -/
theorem calls_succ (ih : ExpressionRules P fuel) {callee : Node} (hf : 20 * n + 1 ≤ fuel + 1)
    (hcallee : callee.IsExpression P) :
    (Grammar.calls (fuel + 1) callee).Meets P n d (fun _ e => e.IsExpression P)
      (fun us e => ∀ ts, DerivesExpression .call ts [callee] ∧ callee.Legal (0 < d) →
        DerivesExpression .call (ts ++ us) [e] ∧ e.Legal (0 < d)) := by
  rw [Grammar.calls]
  refine MeetsOn.bind (meets_accept _) fun us b hlu ⟨_, hus⟩ => ?_
  rcases hus with ⟨rfl, rfl⟩ | ⟨rfl, lp, rfl, -, hlp⟩
  · exact MeetsOn.pure (fun _ => hcallee) fun _ _ ts h => by simpa using h
  simp only [List.length_singleton] at hlu
  refine Meets.bind (meets_unlessNext _ (ih.arguments
    (by simp only [List.length_singleton]; omega))) fun vs o hlv ho => ?_
  refine Meets.bind (meets_expect _ _) fun ws rp _ ⟨hws, hP, hrp⟩ => ?_
  obtain rfl := hws
  have hargs : Node.AllExpressions P (o.getD []) := by
    cases o with
    | none => trivial
    | some es => exact ho.2
  have hcall : (Node.call callee rp (o.getD [])).IsExpression P := ⟨hP, hcallee, hargs⟩
  refine (ih.calls (by simp only [List.length_singleton]; omega) hcall).mono
    (fun _ _ _ he => he) ?_
  rintro xs - e - h - ho' - ts ⟨hd, hg⟩
  cases o with
  | none =>
    obtain rfl : vs = [] := ho
    simpa using h (ts ++ [lp, rp])
      ⟨hd.callWithout hlp hrp, by simp [Node.Legal, Node.AllLegal, hg]⟩
  | some es =>
    obtain ⟨hd', hc, hg'⟩ := ho'
    simpa using h (ts ++ lp :: (vs ++ [rp]))
      ⟨hd.callWith hlp hd' hrp, by simpa using hc, hg, hg'⟩

/-- Every argument but the last one has a comma after it. -/
theorem arguments_succ (ih : ExpressionRules P fuel) {count : Nat}
    (hf : 20 * n + 11 ≤ fuel + 1) :
    (Grammar.arguments (fuel + 1) count).Meets P n d
      (fun ts es => ts ≠ [] ∧ Node.AllExpressions P es)
      (fun ts es => DerivesExpression .arguments ts es ∧ count + es.length ≤ maxArguments ∧
        Node.AllLegal (0 < d) es) := by
  have rest : (do
      let argument ← Grammar.expression fuel
      if ← accept .comma then return argument :: (← Grammar.arguments fuel (count + 1))
      else return [argument]).Meets P n d (fun ts es => ts ≠ [] ∧ Node.AllExpressions P es)
      (fun ts es => count < maxArguments → DerivesExpression .arguments ts es ∧
        count + es.length ≤ maxArguments ∧ Node.AllLegal (0 < d) es) := by
    refine Meets.bind (ih.expression (by omega)) fun ts e hlt ⟨hts, he⟩ => ?_
    refine MeetsOn.bind (meets_accept _) fun us b hlu ⟨_, hus⟩ => ?_
    rcases hus with ⟨rfl, rfl⟩ | ⟨rfl, comma, rfl, -, hc⟩
    · refine MeetsOn.pure (fun _ => ⟨by simp [hts], he, trivial⟩) ?_
      rintro - - ⟨hd, hg⟩ hcount
      exact ⟨by simpa using hd.argument, hcount, hg, trivial⟩
    · simp only [List.length_singleton] at hlu
      refine Meets.bind (ih.arguments (by simp only [List.length_singleton]; omega))
        fun vs es _ ⟨_, hes⟩ => MeetsOn.pure (fun _ => ⟨by simp, he, hes⟩) ?_
      rintro - ⟨hd', hlen, hg'⟩ - ⟨hd, hg⟩ -
      refine ⟨by simpa using hd.arguments hc hd', ?_, hg, hg'⟩
      simp only [List.length_cons]
      omega
  rw [Grammar.arguments]
  split
  · refine MeetsOn.bind (meets_record _) ?_
    rintro _ - - ⟨-, rfl⟩
    exact rest.mono (fun _ _ _ h => h) fun _ _ _ _ _ h => h.elim
  · rename_i hcount
    exact rest.mono (fun _ _ _ h => h) fun _ _ _ _ h => h (Nat.lt_of_not_le hcount)

/-- A literal is one token. -/
theorem meets_acceptLiteral? :
    acceptLiteral?.Meets P n d (fun ts o => o.elim (ts = []) fun v => ts ≠ [] ∧ v.IsPlain)
      (fun ts o => ∀ v ∈ o, DerivesExpression .primary ts [.lit v]) := by
  refine MeetsOn.bind (meets_acceptIf? _) fun us o _ ⟨_, hus, ho⟩ => ?_
  cases o with
  | none =>
    obtain rfl : us = [] := hus
    exact MeetsOn.pure (fun _ => rfl) fun _ _ _ h => by simp at h
  | some t =>
    obtain rfl : us = [t] := hus
    obtain ⟨-, hk⟩ := ho t rfl
    have hlit : (literalValue t.literal).IsPlain := by
      rcases t.literal with _ | (_ | _) <;> trivial
    have h : ∃ v, literal? t = some v ∧ v.IsPlain ∧ DerivesExpression .primary [t] [.lit v] := by
      unfold literal?
      cases hk' : t.kind <;> simp only [hk', Bool.false_eq_true] at hk
      · exact ⟨_, rfl, hlit, .stringLit hk'⟩
      · exact ⟨_, rfl, hlit, .numberLit hk'⟩
      · exact ⟨_, rfl, trivial, .falseLit hk'⟩
      · exact ⟨_, rfl, trivial, .nilLit hk'⟩
      · exact ⟨_, rfl, trivial, .trueLit hk'⟩
    obtain ⟨v, hv, hplain, hd⟩ := h
    show (pure (literal? t) : Reader _).MeetsOn _ d _ _
    rw [hv]
    refine MeetsOn.pure (fun _ => ⟨by simp, hplain⟩) ?_
    rintro - - w ⟨⟩
    simpa using hd

/-- What no other rule takes is a literal, a variable or an expression in parentheses. -/
theorem primary_succ (ih : ExpressionRules P fuel) (hf : 20 * n + 1 ≤ fuel + 1) :
    (Grammar.primary (fuel + 1)).Meets P n d (fun ts e => ts ≠ [] ∧ e.IsExpression P)
      (fun ts e => DerivesExpression .primary ts [e] ∧ e.Legal (0 < d)) := by
  rw [Grammar.primary]
  refine Meets.bind meets_acceptLiteral? fun ts o _ ho => ?_
  rcases o with - | v
  swap
  · refine MeetsOn.pure (fun _ => ⟨by simpa using ho.1, ho.2⟩) fun _ h => ?_
    exact ⟨by simpa using h v rfl, trivial⟩
  obtain rfl : ts = [] := ho
  refine MeetsOn.bind (meets_accept? _) fun us o _ ⟨_, hus, ho⟩ => ?_
  rcases o with - | name
  swap
  · obtain rfl : us = [name] := hus
    obtain ⟨hP, hk⟩ := ho name rfl
    exact MeetsOn.pure (fun _ => ⟨by simp, hP⟩) fun _ _ _ => ⟨.ident hk, trivial⟩
  obtain rfl : us = [] := hus
  refine MeetsOn.bind (meets_accept _) fun vs b hlv ⟨_, hvs⟩ => ?_
  rcases hvs with ⟨rfl, rfl⟩ | ⟨rfl, lp, rfl, -, hlp⟩
  · exact meets_fail _
  simp only [List.length_singleton, List.length_nil] at hlv
  refine Meets.bind (ih.expression (by simp only [List.length_singleton, List.length_nil]; omega))
    fun ws e _ ⟨_, he⟩ => ?_
  refine Meets.bind (meets_expect _ _) fun xs rp _ ⟨hxs, _, hrp⟩ => ?_
  obtain rfl := hxs
  refine MeetsOn.pure (fun _ => ⟨by simp, he⟩) ?_
  rintro - - ⟨hd, hg⟩ - - -
  exact ⟨by simpa using DerivesExpression.group hlp hd hrp, hg⟩

end ExpressionRules

/-- The rules for expressions meet their specifications. -/
theorem expressionRules (P : Token → Prop) (fuel : Nat) : ExpressionRules P fuel := by
  induction fuel with
  | zero => constructor <;> intros <;> omega
  | succ fuel ih =>
    exact {
      expression := ih.expression_succ
      operation := ih.operation_succ
      operands := ih.operands_succ
      prefixed := ih.prefixed_succ
      calls := ih.calls_succ
      arguments := ih.arguments_succ
      primary := ih.primary_succ }

end Lox.Grammar
