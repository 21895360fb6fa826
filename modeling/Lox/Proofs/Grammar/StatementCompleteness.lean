import Lox.Proofs.Grammar.ExpressionCompleteness
import Lox.Proofs.Node.WellFormed

/-!
# Statements that are derived are read

In front of tokens that are derived from a symbol, the rule for the symbol reads these tokens, finds
no error, and has the tree of the derivation as its result. A statement that ends in an `if` without
`else` must not be followed by an `else`.

## Main definitions

* `StatementSymbol.Complete`: what the rules do in front of tokens derived from a symbol

## Main results

* `Derives.complete`: all derivations are read as they should be
* `Derives.reads_declarations`: programs that are derived are read
-/

namespace Lox.Grammar

open Reader

variable {d : Nat}

/-- What the rule for the symbol does in front of tokens that are derived from it. -/
def StatementSymbol.Complete (d : Nat) (s : StatementSymbol) (ts : List Token)
    (ns : List Node) : Prop :=
  match s with
  | .program => ∀ fuel, 20 * ts.length + 13 ≤ fuel →
    Reads d ts (fun rest => ∀ t ∈ rest.head?, t.kind = .rightBrace) (Grammar.blockItems fuel) ns ∧
    Reads d ts (fun rest => rest = []) (Grammar.declarations fuel) ns
  | .declaration => ∀ n fuel, ns = [n] → 20 * ts.length + 12 ≤ fuel →
    Reads d ts (Avoids [.elseKw]) (Grammar.declaration fuel) (some n)
  | .function => ∀ n fuel, ns = [n] → 20 * ts.length + 1 ≤ fuel →
    Reads d ts Anything (Grammar.functionDeclaration fuel) n
  | .varDecl => ∀ n fuel, ns = [n] → 20 * ts.length ≤ fuel →
    Reads d ts Anything (Grammar.variableDeclaration fuel) n
  | .statement dangling => ∀ n fuel, ns = [n] → 20 * ts.length + 11 ≤ fuel →
    Reads d ts (fun rest => dangling = true → Avoids [.elseKw] rest) (Grammar.statement fuel) n
  | .block => ∃ lb us, ts = lb :: us ∧ lb.kind = .leftBrace ∧
    ∀ fuel, 20 * us.length + 14 ≤ fuel → Reads d us Anything (Grammar.blockBody fuel) ns
  | .exprStmt => ∀ n fuel, ns = [n] → 20 * ts.length + 10 ≤ fuel →
    Reads d ts Anything (Grammar.expressionStatement fuel) n
  | .initializer => ∀ fuel, 20 * ts.length + 10 ≤ fuel →
    Reads d ts Anything (Grammar.forInitializer fuel) ns.head?
  | .optional => ∀ k fuel, k = .semicolon ∨ k = .rightParen → 20 * ts.length + 10 ≤ fuel →
    Reads d ts (fun rest => rest.head?.map Token.kind = some k)
      (unlessNext k (Grammar.expression fuel)) ns.head?

/-- What is derived from a symbol begins with no token of another kind, and neither does what
follows it if nothing is derived. -/
theorem Derives.avoids_append {s : StatementSymbol} {ts rest : List Token} {ns : List Node}
    {ks : List Kind} (h : Derives s ts ns) (hk : ∀ k ∈ ks, k ∉ s.starts) (hr : Avoids ks rest) :
    Avoids ks (ts ++ rest) := by
  rcases h.head with ⟨rfl, -⟩ | ⟨t, us, rfl, ht⟩
  · exact hr
  · rw [List.cons_append, avoids_cons]
    exact fun hkt => hk t.kind hkt ht

/-- From most symbols, something is derived. -/
theorem Derives.avoids {s : StatementSymbol} {ts : List Token} {ns : List Node} {ks : List Kind}
    (h : Derives s ts ns) (hs : s ≠ .program ∧ s ≠ .optional) (hk : ∀ k ∈ ks, k ∉ s.starts)
    (rest : List Token) : Avoids ks (ts ++ rest) := by
  rcases h.head with ⟨-, h⟩ | ⟨t, us, rfl, ht⟩
  · exact absurd h (not_or.mpr hs)
  · rw [List.cons_append, avoids_cons]
    exact fun hkt => hk t.kind hkt ht

/-- A condition in parentheses. -/
theorem passes_condition {α : Type} {fault fault' : SyntaxFault} {next : Node → Reader α}
    {r : Reader α} {ts us : List Token} {stop : List Token → Prop} {lp rp : Token} {e : Node}
    {f : Bool} {fuel : Nat} (hlp : lp.kind = .leftParen)
    (hd : DerivesExpression .expression ts [e]) (hg : e.Legal f) (hrp : rp.kind = .rightParen)
    (hf : 20 * ts.length + 10 ≤ fuel) (h : Passes d us stop (next e) r) :
    Passes d (lp :: (ts ++ rp :: us)) stop (do
      let _ ← expect .leftParen fault
      let e ← Grammar.expression fuel
      let _ ← expect .rightParen fault'
      next e) r := by
  refine Passes.bind (reads_expect hlp) (fun _ _ => trivial) ?_
  refine Passes.bind (hd.reads_expression hg hf)
    (fun _ _ => by simp [hrp, ExpressionSymbol.continues]) ?_
  exact Passes.bind (reads_expect hrp) (fun _ _ => trivial) h

/-! ## Parameters -/

theorem DerivesParameters.reads {ts names : List Token} {count fuel : Nat}
    (h : DerivesParameters ts names) (hlen : count + names.length ≤ maxArguments)
    (hf : 20 * ts.length + 1 ≤ fuel) :
    Reads d ts (Avoids [.comma]) (parameters fuel count) names := by
  induction h generalizing count fuel with
  | one hn =>
    obtain ⟨fuel, rfl⟩ := Nat.exists_eq_add_of_le' (show 1 ≤ fuel by omega)
    simp only [List.length_cons, List.length_nil] at hlen
    rw [parameters, if_neg (by omega)]
    refine Passes.bind (reads_expect hn) (fun _ _ => trivial) ?_
    exact Passes.bind reads_accept_false (fun _ h => h) .refl
  | more hn hc _ ih =>
    obtain ⟨fuel, rfl⟩ := Nat.exists_eq_add_of_le' (show 1 ≤ fuel by omega)
    simp only [List.length_cons] at hlen hf
    rw [parameters, if_neg (by omega)]
    refine Passes.bind (reads_expect hn) (fun _ _ => trivial) ?_
    refine Passes.bind (reads_accept hc) (fun _ _ => trivial) ?_
    exact (ih (by omega) (by omega)).andThen

theorem DerivesParameters.head {ts names : List Token} (h : DerivesParameters ts names) :
    ∃ t us, ts = t :: us ∧ t.kind = .identifier := by
  cases h with
  | one hn | more hn => exact ⟨_, _, rfl, hn⟩

namespace StatementSymbol.Complete

variable {ts us : List Token} {n : Node} {ns : List Node} {e : Node} {f : Bool}

/-! ## Parts of statements -/

theorem uninitialized {name semi : Token} (hn : name.kind = .identifier)
    (hs : semi.kind = .semicolon) : Complete d .varDecl [name, semi] [.varDecl name none] := by
  intro n fuel he _
  obtain rfl : Node.varDecl name none = n := by simpa using he
  unfold Grammar.variableDeclaration
  refine Passes.bind (reads_expect hn) (fun _ _ => trivial) ?_
  refine Passes.bind reads_accept_false (fun _ _ => by simp [hs]) ?_
  exact Passes.bind (reads_expect hs) (fun _ _ => trivial) .refl

theorem initialized {name equals semi : Token} (hn : name.kind = .identifier)
    (heq : equals.kind = .equal) (hd : DerivesExpression .expression ts [e]) (hg : e.Legal f)
    (hs : semi.kind = .semicolon) :
    Complete d .varDecl (name :: equals :: (ts ++ [semi])) [.varDecl name (some e)] := by
  intro n fuel he hf
  obtain rfl : Node.varDecl name (some e) = n := by simpa using he
  simp only [List.length_cons, List.length_append, List.length_nil] at hf
  unfold Grammar.variableDeclaration
  refine Passes.bind (reads_expect hn) (fun _ _ => trivial) ?_
  refine Passes.bind (reads_accept heq) (fun _ _ => trivial) ?_
  refine Passes.bind ((hd.reads_expression hg (by omega)).map some)
    (fun _ _ => by simp [hs, ExpressionSymbol.continues]) ?_
  exact Passes.bind (reads_expect hs) (fun _ _ => trivial) .refl

theorem expression {semi : Token} (hd : DerivesExpression .expression ts [e]) (hg : e.Legal f)
    (hs : semi.kind = .semicolon) : Complete d .exprStmt (ts ++ [semi]) [.exprStmt e] := by
  intro n fuel he hf
  obtain rfl : Node.exprStmt e = n := by simpa using he
  simp only [List.length_append, List.length_cons, List.length_nil] at hf
  unfold Grammar.expressionStatement
  refine Passes.bind (hd.reads_expression hg (by omega))
    (fun _ _ => by simp [hs, ExpressionSymbol.continues]) ?_
  exact Passes.bind (reads_expect hs) (fun _ _ => trivial) .refl

theorem noInitializer {semi : Token} (hs : semi.kind = .semicolon) :
    Complete d .initializer [semi] [] := by
  intro fuel _
  unfold Grammar.forInitializer
  exact Passes.bind (reads_accept hs) (fun _ _ => trivial) .refl

theorem initializerVar {kw : Token} (hk : kw.kind = .varKw) (h : Complete d .varDecl ts [n]) :
    Complete d .initializer (kw :: ts) [n] := by
  intro fuel hf
  simp only [List.length_cons] at hf
  unfold Grammar.forInitializer
  refine Passes.bind reads_accept_false (fun _ _ => by simp [hk]) ?_
  refine Passes.bind (reads_accept hk) (fun _ _ => trivial) ?_
  exact (h n fuel rfl (by omega)).andThen

theorem initializerExpr (hd : Derives .exprStmt ts [n]) (h : Complete d .exprStmt ts [n]) :
    Complete d .initializer ts [n] := by
  intro fuel hf
  unfold Grammar.forInitializer
  refine Passes.bind reads_accept_false (fun rest _ => hd.avoids (by simp) (by decide) rest) ?_
  refine Passes.bind reads_accept_false (fun rest _ => hd.avoids (by simp) (by decide) rest) ?_
  exact (h n fuel rfl hf).andThen

theorem absent : Complete d .optional [] [] :=
  fun _ _ _ _ => reads_unlessNext_none

theorem present (hd : DerivesExpression .expression ts [e]) (hg : e.Legal f) :
    Complete d .optional ts [e] := by
  intro k fuel hk hf
  have hts : ∀ rest, Avoids [k] (ts ++ rest) := by
    rcases hk with rfl | rfl
    · exact hd.avoids (by decide)
    · exact hd.avoids (by decide)
  refine (reads_unlessNext (hd.reads_expression hg hf) hts).mono fun rest hr => ?_
  rcases hk with rfl | rfl <;> cases rest <;> simp_all [ExpressionSymbol.continues]

/-! ## Statements -/

section

variable {kw lp rp semi : Token} {fuel : Nat}

theorem passes_for (hk : kw.kind = .forKw) :
    Passes d [kw] Anything (Grammar.statement (fuel + 1)) (Grammar.forStatement fuel) := by
  rw [Grammar.statement]
  exact Passes.bind (reads_accept hk) (fun _ _ => trivial) .refl

theorem passes_if (hk : kw.kind = .ifKw) :
    Passes d [kw] Anything (Grammar.statement (fuel + 1)) (Grammar.ifStatement fuel) := by
  rw [Grammar.statement]
  refine Passes.bind reads_accept_false (fun _ _ => by simp [hk]) ?_
  exact Passes.bind (reads_accept hk) (fun _ _ => trivial) .refl

theorem passes_while (hk : kw.kind = .whileKw) :
    Passes d [kw] Anything (Grammar.statement (fuel + 1)) (Grammar.whileStatement fuel) := by
  rw [Grammar.statement]
  refine Passes.bind reads_accept_false (fun _ _ => by simp [hk]) ?_
  refine Passes.bind reads_accept_false (fun _ _ => by simp [hk]) ?_
  refine Passes.bind reads_accept_false (fun _ _ => by simp [hk]) ?_
  refine Passes.bind reads_accept?_none (fun _ _ => by simp [hk]) ?_
  exact Passes.bind (reads_accept hk) (fun _ _ => trivial) .refl

theorem printStmt (hk : kw.kind = .printKw) (hd : DerivesExpression .expression ts [e])
    (hg : e.Legal f) (hs : semi.kind = .semicolon) :
    Complete d (.statement false) (kw :: (ts ++ [semi])) [.printStmt e] := by
  intro n fuel he hf
  obtain rfl : Node.printStmt e = n := by simpa using he
  obtain ⟨fuel, rfl⟩ := Nat.exists_eq_add_of_le' (show 1 ≤ fuel by omega)
  simp only [List.length_cons, List.length_append, List.length_nil] at hf
  rw [Grammar.statement]
  refine Passes.bind reads_accept_false (fun _ _ => by simp [hk]) ?_
  refine Passes.bind reads_accept_false (fun _ _ => by simp [hk]) ?_
  refine Passes.bind (reads_accept hk) (fun _ _ => trivial) ?_
  refine Passes.bind (hd.reads_expression hg (by omega))
    (fun _ _ => by simp [hs, ExpressionSymbol.continues]) ?_
  exact Passes.bind (reads_expect hs) (fun _ _ => trivial) .refl

/-- Inside of a function, a `return` is no error. -/
theorem returnStmt {v : List Node} (hk : kw.kind = .returnKw) (hd : 0 < d)
    (hv : Complete d .optional ts v) (hs : semi.kind = .semicolon) :
    Complete d (.statement false) (kw :: (ts ++ [semi])) [.returnStmt kw v.head?] := by
  intro n fuel he hf
  obtain rfl : Node.returnStmt kw v.head? = n := by simpa using he
  obtain ⟨fuel, rfl⟩ := Nat.exists_eq_add_of_le' (show 1 ≤ fuel by omega)
  simp only [List.length_cons, List.length_append, List.length_nil] at hf
  have hdepth : Reads d [] Anything functionDepth d := fun _ _ _ _ => rfl
  rw [Grammar.statement]
  refine Passes.bind reads_accept_false (fun _ _ => by simp [hk]) ?_
  refine Passes.bind reads_accept_false (fun _ _ => by simp [hk]) ?_
  refine Passes.bind reads_accept_false (fun _ _ => by simp [hk]) ?_
  refine Passes.bind (reads_accept? hk) (fun _ _ => trivial) ?_
  unfold Grammar.returnStatement
  show Passes d ([] ++ (ts ++ [semi])) _ _ _
  refine Passes.bind hdepth (fun _ _ => trivial) ?_
  rw [if_neg (by omega)]
  refine Passes.bind (hv .semicolon fuel (.inl rfl) (by omega)) (fun _ _ => by simp [hs]) ?_
  exact Passes.bind (reads_expect hs) (fun _ _ => trivial) .refl

theorem blockStmt (h : Complete d .block ts ns) :
    Complete d (.statement false) ts [.block ns] := by
  intro n fuel he hf
  obtain rfl : Node.block ns = n := by simpa using he
  obtain ⟨fuel, rfl⟩ := Nat.exists_eq_add_of_le' (show 1 ≤ fuel by omega)
  obtain ⟨lb, us, rfl, hlb, h⟩ := h
  simp only [List.length_cons] at hf
  rw [Grammar.statement]
  refine Passes.bind reads_accept_false (fun _ _ => by simp [hlb]) ?_
  refine Passes.bind reads_accept_false (fun _ _ => by simp [hlb]) ?_
  refine Passes.bind reads_accept_false (fun _ _ => by simp [hlb]) ?_
  refine Passes.bind reads_accept?_none (fun _ _ => by simp [hlb]) ?_
  refine Passes.bind reads_accept_false (fun _ _ => by simp [hlb]) ?_
  refine Passes.bind (reads_accept hlb) (fun _ _ => trivial) ?_
  exact ((h fuel (by omega)).mono fun _ _ => trivial).andThen

/-- An expression starts with no keyword of a statement. -/
theorem exprStmt (hd : Derives .exprStmt ts [n]) (h : Complete d .exprStmt ts [n]) :
    Complete d (.statement false) ts [n] := by
  intro n' fuel he hf
  obtain rfl : n = n' := by simpa using he
  obtain ⟨fuel, rfl⟩ := Nat.exists_eq_add_of_le' (show 1 ≤ fuel by omega)
  rw [Grammar.statement]
  refine Passes.bind reads_accept_false (fun rest _ => hd.avoids (by simp) (by decide) rest) ?_
  refine Passes.bind reads_accept_false (fun rest _ => hd.avoids (by simp) (by decide) rest) ?_
  refine Passes.bind reads_accept_false (fun rest _ => hd.avoids (by simp) (by decide) rest) ?_
  refine Passes.bind reads_accept?_none (fun rest _ => hd.avoids (by simp) (by decide) rest) ?_
  refine Passes.bind reads_accept_false (fun rest _ => hd.avoids (by simp) (by decide) rest) ?_
  refine Passes.bind reads_accept_false (fun rest _ => hd.avoids (by simp) (by decide) rest) ?_
  exact (h n fuel rfl (by omega)).mono fun _ _ => trivial

theorem forLoop {vs ws : List Token} {i c s : List Node} {dangling : Bool}
    (hk : kw.kind = .forKw) (hlp : lp.kind = .leftParen) (hi : Complete d .initializer ts i)
    (hc : Complete d .optional us c) (hs : semi.kind = .semicolon)
    (he : Complete d .optional vs s) (hrp : rp.kind = .rightParen)
    (hb : Complete d (.statement dangling) ws [n]) :
    Complete d (.statement dangling) (kw :: lp :: (ts ++ (us ++ semi :: (vs ++ rp :: ws))))
      [.forLoop i.head? c.head? s.head? n] := by
  intro n' fuel hn hf
  obtain rfl : Node.forLoop i.head? c.head? s.head? n = n' := by simpa using hn
  simp only [List.length_cons, List.length_append] at hf
  obtain ⟨fuel, rfl⟩ := Nat.exists_eq_add_of_le' (show 2 ≤ fuel by omega)
  refine (passes_for hk).trans (fun _ _ => trivial) ?_
  rw [Grammar.forStatement]
  refine Passes.bind (reads_expect hlp) (fun _ _ => trivial) ?_
  refine Passes.bind (hi fuel (by omega)) (fun _ _ => trivial) ?_
  refine Passes.bind (hc .semicolon fuel (.inl rfl) (by omega)) (fun _ _ => by simp [hs]) ?_
  refine Passes.bind (reads_expect hs) (fun _ _ => trivial) ?_
  refine Passes.bind (he .rightParen fuel (.inr rfl) (by omega)) (fun _ _ => by simp [hrp]) ?_
  refine Passes.bind (reads_expect hrp) (fun _ _ => trivial) ?_
  exact (hb n fuel rfl (by omega)).andThen

theorem whileStmt {dangling : Bool} (hk : kw.kind = .whileKw) (hlp : lp.kind = .leftParen)
    (hd : DerivesExpression .expression ts [e]) (hg : e.Legal f) (hrp : rp.kind = .rightParen)
    (hb : Complete d (.statement dangling) us [n]) :
    Complete d (.statement dangling) (kw :: lp :: (ts ++ rp :: us)) [.whileStmt e n] := by
  intro n' fuel hn hf
  obtain rfl : Node.whileStmt e n = n' := by simpa using hn
  simp only [List.length_cons, List.length_append] at hf
  obtain ⟨fuel, rfl⟩ := Nat.exists_eq_add_of_le' (show 2 ≤ fuel by omega)
  refine (passes_while hk).trans (fun _ _ => trivial) ?_
  rw [Grammar.whileStatement]
  refine passes_condition hlp hd hg hrp (by omega) ?_
  exact (hb n fuel rfl (by omega)).andThen

/-- Without an `else` there must be none behind the statement. -/
theorem ifThen {dangling : Bool} (hk : kw.kind = .ifKw) (hlp : lp.kind = .leftParen)
    (hd : DerivesExpression .expression ts [e]) (hg : e.Legal f) (hrp : rp.kind = .rightParen)
    (ht : Complete d (.statement dangling) us [n]) :
    Complete d (.statement true) (kw :: lp :: (ts ++ rp :: us)) [.ifStmt e n none] := by
  intro n' fuel hn hf
  obtain rfl : Node.ifStmt e n none = n' := by simpa using hn
  simp only [List.length_cons, List.length_append] at hf
  obtain ⟨fuel, rfl⟩ := Nat.exists_eq_add_of_le' (show 2 ≤ fuel by omega)
  refine (passes_if hk).trans (fun _ _ => trivial) ?_
  rw [Grammar.ifStatement]
  refine passes_condition hlp hd hg hrp (by omega) ?_
  rw [← List.append_nil us]
  -- no `else` follows, so it does not matter in which way the branch ends
  refine Passes.bind (ht n fuel rfl (by omega)) (fun _ h _ => h rfl) ?_
  exact Passes.bind reads_accept_false (fun _ h => h rfl) .refl

theorem ifElse {el : Token} {vs : List Token} {m : Node} {dangling : Bool}
    (hk : kw.kind = .ifKw) (hlp : lp.kind = .leftParen)
    (hd : DerivesExpression .expression ts [e]) (hg : e.Legal f) (hrp : rp.kind = .rightParen)
    (ht : Complete d (.statement false) us [n]) (hel : el.kind = .elseKw)
    (he : Complete d (.statement dangling) vs [m]) :
    Complete d (.statement dangling) (kw :: lp :: (ts ++ rp :: (us ++ el :: vs)))
      [.ifStmt e n (some m)] := by
  intro n' fuel hn hf
  obtain rfl : Node.ifStmt e n (some m) = n' := by simpa using hn
  simp only [List.length_cons, List.length_append] at hf
  obtain ⟨fuel, rfl⟩ := Nat.exists_eq_add_of_le' (show 2 ≤ fuel by omega)
  refine (passes_if hk).trans (fun _ _ => trivial) ?_
  rw [Grammar.ifStatement]
  refine passes_condition hlp hd hg hrp (by omega) ?_
  -- an `else` follows, and the branch does not end in an `if` that could take it
  refine Passes.bind (ht n fuel rfl (by omega)) (fun _ _ h => by simp at h) ?_
  refine Passes.bind (reads_accept hel) (fun _ _ => trivial) ?_
  exact ((he m fuel rfl (by omega)).map some).andThen

end

/-! ## Declarations -/

section

variable {kw : Token}

theorem funcDecl (hk : kw.kind = .funcKw) (h : Complete d .function ts [n]) :
    Complete d .declaration (kw :: ts) [n] := by
  intro n' fuel hn hf
  obtain rfl : n = n' := by simpa using hn
  obtain ⟨fuel, rfl⟩ := Nat.exists_eq_add_of_le' (show 1 ≤ fuel by omega)
  simp only [List.length_cons] at hf
  rw [Grammar.declaration]
  refine reads_recover (Passes.bind (reads_accept hk) (fun _ _ => trivial) ?_)
  exact (h n fuel rfl (by omega)).mono fun _ _ => trivial

theorem varDecl (hk : kw.kind = .varKw) (h : Complete d .varDecl ts [n]) :
    Complete d .declaration (kw :: ts) [n] := by
  intro n' fuel hn hf
  obtain rfl : n = n' := by simpa using hn
  obtain ⟨fuel, rfl⟩ := Nat.exists_eq_add_of_le' (show 1 ≤ fuel by omega)
  simp only [List.length_cons] at hf
  rw [Grammar.declaration]
  refine reads_recover (Passes.bind reads_accept_false (fun _ _ => by simp [hk]) ?_)
  refine Passes.bind (reads_accept hk) (fun _ _ => trivial) ?_
  exact (h n fuel rfl (by omega)).mono fun _ _ => trivial

/-- A statement starts as no declaration does. -/
theorem statement {dangling : Bool} (hd : Derives (.statement dangling) ts [n])
    (h : Complete d (.statement dangling) ts [n]) : Complete d .declaration ts [n] := by
  intro n' fuel hn hf
  obtain rfl : n = n' := by simpa using hn
  obtain ⟨fuel, rfl⟩ := Nat.exists_eq_add_of_le' (show 1 ≤ fuel by omega)
  have hfunc : ∀ rest, Avoids [.funcKw] (ts ++ rest) :=
    hd.avoids (by simp) (by simp only [starts]; decide)
  have hvar : ∀ rest, Avoids [.varKw] (ts ++ rest) :=
    hd.avoids (by simp) (by simp only [starts]; decide)
  rw [Grammar.declaration]
  refine reads_recover (Passes.bind reads_accept_false (fun rest _ => hfunc rest) ?_)
  refine Passes.bind reads_accept_false (fun rest _ => hvar rest) ?_
  exact (h n fuel rfl (by omega)).mono fun _ h _ => h

/-- The body of a function is read one level deeper. -/
theorem function {name lp rp : Token} {params : List Token} (hn : name.kind = .identifier)
    (hlp : lp.kind = .leftParen) (hp : ts = [] ∧ params = [] ∨ DerivesParameters ts params)
    (hlen : params.length ≤ maxArguments) (hrp : rp.kind = .rightParen)
    (hb : Complete (d + 1) .block us ns) :
    Complete d .function (name :: lp :: (ts ++ rp :: us)) [.funcDecl name params ns] := by
  intro n' fuel hn' hf
  obtain rfl : Node.funcDecl name params ns = n' := by simpa using hn'
  obtain ⟨fuel, rfl⟩ := Nat.exists_eq_add_of_le' (show 1 ≤ fuel by omega)
  obtain ⟨lb, vs, rfl, hlb, hb⟩ := hb
  simp only [List.length_cons, List.length_append] at hf
  have body : Reads d (rp :: lb :: vs) Anything (do
      let _ ← expect .rightParen .parenAfterParameters
      let _ ← expect .leftBrace .braceBeforeBody
      let body ← inFunction (Grammar.blockBody fuel)
      return Node.funcDecl name params body) (.funcDecl name params ns) := by
    refine Passes.bind (reads_expect hrp) (fun _ _ => trivial) ?_
    refine Passes.bind (reads_expect hlb) (fun _ _ => trivial) ?_
    exact (reads_inFunction (hb fuel (by omega))).andThen
  rw [Grammar.functionDeclaration]
  refine Passes.bind (reads_expect hn) (fun _ _ => trivial) ?_
  refine Passes.bind (reads_expect hlp) (fun _ _ => trivial) ?_
  rcases hp with ⟨rfl, rfl⟩ | hp
  · exact Passes.bind reads_unlessNext_none (fun _ _ => by simp [hrp]) body
  · have hts : ∀ rest, Avoids [.rightParen] (ts ++ rest) := by
      intro rest
      obtain ⟨t, us, rfl, ht⟩ := hp.head
      simp [ht]
    refine Passes.bind (reads_unlessNext (hp.reads (by omega) (by omega)) hts)
      (fun _ _ => by simp [hrp]) ?_
    exact body

end

/-! ## Sequences of declarations -/

theorem block {lb rb : Token} (hlb : lb.kind = .leftBrace) (h : Complete d .program ts ns)
    (hrb : rb.kind = .rightBrace) : Complete d .block (lb :: (ts ++ [rb])) ns := by
  refine ⟨lb, ts ++ [rb], rfl, hlb, fun fuel hf => ?_⟩
  simp only [List.length_append, List.length_cons, List.length_nil] at hf
  obtain ⟨fuel, rfl⟩ := Nat.exists_eq_add_of_le' (show 1 ≤ fuel by omega)
  rw [Grammar.blockBody]
  refine Passes.bind (h fuel (by omega)).1 (fun _ _ => by simp [hrb]) ?_
  exact Passes.bind (reads_expect hrb) (fun _ _ => trivial) .refl

theorem noMore : Complete d .program [] [] := by
  intro fuel hf
  obtain ⟨fuel, rfl⟩ := Nat.exists_eq_add_of_le' (show 1 ≤ fuel by omega)
  rw [Grammar.blockItems, Grammar.declarations]
  refine ⟨fun eof rest errors hr => ?_, fun eof rest errors hr => ?_⟩
  · cases rest with
    | nil => rfl
    | cons t rest => simp [bind_apply, nextKind?_apply, hr t rfl]
  · subst hr
    rfl

/-- No declaration goes on with what another one starts with. -/
theorem more (hd : Derives .declaration ts [n]) (h : Complete d .declaration ts [n])
    (hds : Derives .program us ns) (hs : Complete d .program us ns) :
    Complete d .program (ts ++ us) (n :: ns) := by
  intro fuel hf
  obtain ⟨fuel, rfl⟩ := Nat.exists_eq_add_of_le' (show 1 ≤ fuel by omega)
  rcases hd.head with ⟨-, h'⟩ | ⟨t, vs, rfl, ht⟩
  · simp at h'
  simp only [List.length_append, List.length_cons] at hf
  have helse : ∀ rest, Avoids [.elseKw] rest → Avoids [.elseKw] (us ++ rest) :=
    fun rest hr => hds.avoids_append (by decide) hr
  have hbrace : t.kind ≠ .rightBrace := by
    intro hk
    simp [hk, starts, statementStarts, ExpressionSymbol.starts, primaryStarts] at ht
  have hn := h n fuel rfl (by simp only [List.length_cons]; omega)
  obtain ⟨hitems, hdecls⟩ := hs fuel (by omega)
  rw [Grammar.blockItems, Grammar.declarations]
  refine ⟨Passes.bind_nextKind? ?_, Passes.bind_nextKind? ?_⟩
  · split
    · contradiction
    · rename_i hk
      exact absurd (Option.some.inj hk) hbrace
    · refine Passes.bind hn (fun rest hr => helse rest fun u hu => ?_) hitems.andThen
      simp [hr u hu]
  · refine Passes.bind hn (fun rest hr => helse rest ?_) hdecls.andThen
    simp [hr]

end StatementSymbol.Complete

/-- At most one node is derived from the symbol of a first clause. -/
theorem Derives.toList_head?_initializer {ts : List Token} {ns : List Node}
    (h : Derives .initializer ts ns) : ns.head?.toList = ns := by
  cases h <;> rfl

/-- At most one node is derived from the symbol of what may be missing. -/
theorem Derives.toList_head?_optional {ts : List Token} {ns : List Node}
    (h : Derives .optional ts ns) : ns.head?.toList = ns := by
  cases h <;> rfl

theorem allLegal_of_head? {ns : List Node} {f : Bool} (h : ns.head?.toList = ns)
    (hg : ∀ n ∈ ns.head?, n.Legal f) : Node.AllLegal f ns := by
  rw [← h, Node.allLegal_iff]
  simpa using hg

theorem legal_returnStmt {kw : Token} {v : Option Node} {f : Bool} :
    (Node.returnStmt kw v).Legal f ↔ f = true ∧ ∀ e ∈ v, e.Legal f := by
  cases v <;> simp [Node.Legal]

/-- What is derived is read, if the tree is legal. -/
theorem Derives.complete {s : StatementSymbol} {ts : List Token} {ns : List Node}
    (h : Derives s ts ns) (hg : Node.AllLegal (0 < d) ns) : s.Complete d ts ns := by
  induction h generalizing d with
  | noMore => exact .noMore
  | more hd hds ih ihs => exact .more hd (ih ⟨hg.1, trivial⟩) hds (ihs hg.2)
  | funcDecl hk _ ih => exact .funcDecl hk (ih hg)
  | varDecl hk _ ih => exact .varDecl hk (ih hg)
  | statement hd ih => exact .statement hd (ih hg)
  | function hn hlp hp hrp _ ih =>
    -- the body is legal inside a function, which is the case one level deeper
    obtain ⟨⟨hlen, hbody⟩, -⟩ := hg
    exact .function hn hlp hp hlen hrp (ih (by simpa using hbody))
  | uninitialized hn hs => exact .uninitialized hn hs
  | initialized hn heq hd hs => exact .initialized hn heq hd hg.1 hs
  | forLoop hk hlp hdi hdc hs hde hrp _ ihi ihc ihe ihb =>
    obtain ⟨hgi, hgc, hge, hgb⟩ := Node.legal_forLoop.mp hg.1
    have hi := ihi (allLegal_of_head? hdi.toList_head?_initializer hgi)
    have hc := ihc (allLegal_of_head? hdc.toList_head?_optional hgc)
    have he := ihe (allLegal_of_head? hde.toList_head?_optional hge)
    exact .forLoop hk hlp hi hc hs he hrp (ihb ⟨hgb, trivial⟩)
  | ifThen hk hlp hd hrp _ ih => exact .ifThen hk hlp hd hg.1.1 hrp (ih ⟨hg.1.2, trivial⟩)
  | ifElse hk hlp hd hrp _ hel _ iht ihe =>
    obtain ⟨⟨hgc, hgt, hge⟩, -⟩ := hg
    exact .ifElse hk hlp hd hgc hrp (iht ⟨hgt, trivial⟩) hel (ihe ⟨hge, trivial⟩)
  | printStmt hk hd hs => exact .printStmt hk hd hg.1 hs
  | returnStmt hk hd hs ih =>
    obtain ⟨hpos, hgv⟩ := legal_returnStmt.mp hg.1
    exact .returnStmt hk (by simpa using hpos)
      (ih (allLegal_of_head? hd.toList_head?_optional hgv)) hs
  | whileStmt hk hlp hd hrp _ ih => exact .whileStmt hk hlp hd hg.1.1 hrp (ih ⟨hg.1.2, trivial⟩)
  | blockStmt _ ih => exact .blockStmt (ih hg.1)
  | exprStmt hd ih => exact .exprStmt hd (ih hg)
  | block hlb _ hrb ih => exact .block hlb (ih hg) hrb
  | expression hd hs => exact .expression hd hg.1 hs
  | noInitializer hs => exact .noInitializer hs
  | initializerVar hk _ ih => exact .initializerVar hk (ih hg)
  | initializerExpr hd ih => exact .initializerExpr hd (ih hg)
  | absent => exact .absent
  | present hd => exact .present hd hg.1

/-- Programs that are derived are read to the end. -/
theorem Derives.reads_declarations {ts : List Token} {ns : List Node} {fuel : Nat}
    (h : Derives .program ts ns) (hg : Node.AllLegal (0 < d) ns)
    (hf : 20 * ts.length + 13 ≤ fuel) :
    Reads d ts (fun rest => rest = []) (declarations fuel) ns :=
  (h.complete hg fuel hf).2

end Lox.Grammar
