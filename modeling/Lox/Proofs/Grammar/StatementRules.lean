import Lox.Proofs.Grammar.ExpressionRules

/-!
# The rules for statements

What each rule for statements and declarations does: it ends, its result is well-formed, and if it
finds no error then the tokens that it reads derive this result, which is legal.

A statement that ends in an `if` without `else` is not followed by an `else`, since the rule for
`if` would have taken it.

## Main definitions

* `StatementRules P fuel`: the specifications of the rules with this much fuel

## Main results

* `statementRules`: the rules meet their specifications
-/

namespace Lox.Grammar

open Reader

variable {P : Token → Prop} {fuel n d : Nat}

/-! ## Rules without statements in them -/

/-- Every parameter but the last one has a comma after it. -/
theorem meets_parameters {count : Nat} (hf : 20 * n + 1 ≤ fuel) :
    (parameters fuel count).Meets P n d (fun ts names => ts ≠ [] ∧ ∀ p ∈ names, P p)
      (fun ts names => DerivesParameters ts names ∧ count + names.length ≤ maxArguments) := by
  induction fuel generalizing n count with
  | zero => omega
  | succ fuel ih =>
    have rest : (do
        let name ← expect .identifier .parameterName
        if ← accept .comma then return name :: (← parameters fuel (count + 1))
        else return [name]).Meets P n d (fun ts names => ts ≠ [] ∧ ∀ p ∈ names, P p)
        (fun ts names => count < maxArguments →
          DerivesParameters ts names ∧ count + names.length ≤ maxArguments) := by
      refine Meets.bind (meets_expect _ _) fun ts name hlt ⟨hts, hP, hn⟩ => ?_
      obtain rfl := hts
      simp only [List.length_singleton] at hlt
      refine MeetsOn.bind (meets_accept _) fun us b hlu ⟨_, hus⟩ => ?_
      rcases hus with ⟨rfl, rfl⟩ | ⟨rfl, comma, rfl, -, hc⟩
      · refine MeetsOn.pure (fun _ => ⟨by simp, by simpa using hP⟩) ?_
        rintro - - - hcount
        exact ⟨.one hn, hcount⟩
      · simp only [List.length_singleton] at hlu ⊢
        refine Meets.bind (ih (by omega)) fun vs names _ ⟨_, hnames⟩ =>
          MeetsOn.pure (fun _ => ⟨by simp, by simpa using ⟨hP, hnames⟩⟩) ?_
        rintro - ⟨hd, hlen⟩ - - -
        refine ⟨by simpa using hd.more hn hc, ?_⟩
        simp only [List.length_cons]
        omega
    rw [parameters]
    split
    · refine MeetsOn.bind (meets_record _) ?_
      rintro _ - - ⟨-, rfl⟩
      exact rest.mono (fun _ _ _ h => h) fun _ _ _ _ _ h => h.elim
    · rename_i hcount
      exact rest.mono (fun _ _ _ h => h) fun _ _ _ _ h => h (Nat.lt_of_not_le hcount)

theorem meets_variableDeclaration (hf : 20 * n ≤ fuel) :
    (variableDeclaration fuel).Meets P n d (fun ts s => ts ≠ [] ∧ s.IsStatement P)
      (fun ts s => Derives .varDecl ts [s] ∧ s.Legal (0 < d)) := by
  unfold variableDeclaration
  refine Meets.bind (meets_expect _ _) fun ts name hlt ⟨hts, hP, hn⟩ => ?_
  obtain rfl := hts
  simp only [List.length_singleton] at hlt
  refine MeetsOn.bind (meets_accept _) fun us b hlu ⟨_, hus⟩ => ?_
  rcases hus with ⟨rfl, rfl⟩ | ⟨rfl, equals, rfl, -, he⟩
  · refine MeetsOn.pure_bind ?_
    refine Meets.bind (meets_expect _ _) fun vs semi _ ⟨hvs, _, hs⟩ => ?_
    obtain rfl := hvs
    exact MeetsOn.pure (fun _ => ⟨by simp, hP⟩) fun _ _ _ _ => ⟨.uninitialized hn hs, trivial⟩
  · simp only [List.length_singleton] at hlu
    simp only [if_true, Reader.map_bind]
    refine Meets.bind ((expressionRules P fuel).expression
      (by simp only [List.length_singleton]; omega)) fun vs e _ ⟨_, he'⟩ => ?_
    refine Meets.bind (meets_expect _ _) fun ws semi _ ⟨hws, _, hs⟩ => ?_
    obtain rfl := hws
    refine MeetsOn.pure (fun _ => ⟨by simp, hP, he'⟩) ?_
    rintro - - ⟨hd, hg⟩ - -
    exact ⟨by simpa using .initialized hn he hd hs, hg⟩

theorem meets_expressionStatement (hf : 20 * n + 10 ≤ fuel) :
    (expressionStatement fuel).Meets P n d (fun ts s => ts ≠ [] ∧ s.IsStatement P)
      (fun ts s => Derives .exprStmt ts [s] ∧ s.Legal (0 < d)) := by
  unfold expressionStatement
  refine Meets.bind ((expressionRules P fuel).expression hf) fun ts e _ ⟨_, he⟩ => ?_
  refine Meets.bind (meets_expect _ _) fun us semi _ ⟨hus, _, hs⟩ => ?_
  obtain rfl := hus
  refine MeetsOn.pure (fun _ => ⟨by simp, he⟩) ?_
  rintro - - ⟨hd, hg⟩
  exact ⟨by simpa using .expression hd hs, hg⟩

/-- A condition in parentheses. -/
theorem meets_condition {α : Type} {fault fault' : SyntaxFault} {next : Node → Reader α}
    {always clean : List Token → List Token → α → Prop} (hf : 20 * n ≤ fuel)
    (h : ∀ lp rp c ts, 1 < n → lp.kind = .leftParen → rp.kind = .rightParen → c.IsExpression P →
      (next c).MeetsOn (Within P (n - 2)) d
        (fun us vs a => always (lp :: (ts ++ rp :: us)) vs a)
        (fun us vs a => DerivesExpression .expression ts [c] → c.Legal (0 < d) →
          clean (lp :: (ts ++ rp :: us)) vs a)) :
    (do
      let _ ← expect .leftParen fault
      let c ← expression fuel
      let _ ← expect .rightParen fault'
      next c).MeetsOn (Within P n) d always clean := by
  refine Meets.bind (meets_expect _ _) fun ts₁ lp hl₁ ⟨h₁, _, hlp⟩ => ?_
  obtain rfl := h₁
  simp only [List.length_singleton] at hl₁ ⊢
  refine Meets.bind ((expressionRules P fuel).expression (by omega)) fun ts₂ c hl₂ ⟨_, hc⟩ => ?_
  refine Meets.bind (meets_expect _ _) fun ts₃ rp hl₃ ⟨h₃, _, hrp⟩ => ?_
  obtain rfl := h₃
  simp only [List.length_singleton] at hl₃ ⊢
  have hw : ∀ ts, Within P (n - 1 - ts₂.length - 1) ts → Within P (n - 2) ts :=
    fun ts ⟨hl, hP⟩ => ⟨by omega, hP⟩
  refine ((h lp rp c ts₂ (by omega) hlp hrp hc).of_imp hw).mono ?_ ?_
  · exact fun us vs a ha => by simpa using ha
  · rintro us vs a - hc' - ⟨hd, hg⟩ -
    simpa using hc' hd hg

/-- The tokens derive a statement, and those that are left do not go on with it. -/
def DerivesStatement (ts left : List Token) (s : Node) : Prop :=
  ∃ dangling, Derives (.statement dangling) ts [s] ∧
    (dangling = true → ∀ t ∈ left.head?, t.kind ≠ .elseKw)

/-- The tokens derive a statement when they come after a keyword of this kind. -/
def DerivesAfter (kind : Kind) (ts left : List Token) (s : Node) : Prop :=
  ∀ kw : Token, kw.kind = kind → DerivesStatement (kw :: ts) left s

theorem meets_printStatement (hf : 20 * n + 10 ≤ fuel) :
    (printStatement fuel).MeetsOn (Within P n) d (fun _ _ s => s.IsStatement P)
      (fun ts us s => DerivesAfter .printKw ts us s ∧ s.Legal (0 < d)) := by
  unfold printStatement
  refine Meets.bind ((expressionRules P fuel).expression hf) fun ts e _ ⟨_, he⟩ => ?_
  refine Meets.bind (meets_expect _ _) fun us semi _ ⟨hus, _, hs⟩ => ?_
  obtain rfl := hus
  refine MeetsOn.pure (fun _ => he) ?_
  rintro - - ⟨hd, hg⟩
  exact ⟨fun kw hkw => ⟨false, by simpa using .printStmt hkw hd hs, by simp⟩, hg⟩

/-- A `return` outside of all functions is an error. -/
theorem meets_returnStatement {kw : Token} (hf : 20 * n + 10 ≤ fuel) (hP : P kw)
    (hkw : kw.kind = .returnKw) :
    (returnStatement fuel kw).MeetsOn (Within P n) d (fun _ _ s => s.IsStatement P)
      (fun ts us s => DerivesStatement (kw :: ts) us s ∧ s.Legal (0 < d)) := by
  have rest : (do
      let value ← unlessNext .semicolon (expression fuel)
      let _ ← expect .semicolon .semicolonAfterReturnValue
      return Node.returnStmt kw value).MeetsOn (Within P n) d (fun _ _ s => s.IsStatement P)
      (fun ts us s => 0 < d → DerivesStatement (kw :: ts) us s ∧ s.Legal (0 < d)) := by
    refine Meets.bind (meets_unlessNext _ ((expressionRules P fuel).expression hf))
      fun ts o _ ho => ?_
    refine Meets.bind (meets_expect _ _) fun us semi _ ⟨hus, _, hs⟩ => ?_
    obtain rfl := hus
    cases o with
    | none =>
      obtain rfl : ts = [] := ho
      refine MeetsOn.pure (fun _ => hP) ?_
      rintro - - - hd
      exact ⟨⟨false, by simpa using Derives.returnStmt hkw .absent hs, by simp⟩,
        by simpa [Node.Legal] using hd⟩
    | some e =>
      refine MeetsOn.pure (fun _ => ⟨hP, ho.2⟩) ?_
      rintro - - ⟨hd', hg⟩ hd
      exact ⟨⟨false, by simpa using Derives.returnStmt hkw (.present hd') hs, by simp⟩,
        by simpa using hd, hg⟩
  unfold returnStatement
  refine MeetsOn.bind meets_functionDepth ?_
  rintro _ k - ⟨-, rfl, rfl⟩
  split
  · refine MeetsOn.bind (meets_recordAt _ _) ?_
    rintro _ - - ⟨-, rfl⟩
    exact rest.mono (fun _ _ _ h => h) fun _ _ _ _ _ h => h.elim
  · rename_i hne
    exact rest.mono (fun _ _ _ h => h) fun _ _ _ _ h _ => h (Nat.pos_of_ne_zero hne)

theorem meets_forInitializer (hf : 20 * n + 10 ≤ fuel) :
    (forInitializer fuel).Meets P n d (fun ts o => ts ≠ [] ∧ ∀ s ∈ o, s.IsStatement P)
      (fun ts o => Derives .initializer ts o.toList ∧ ∀ s ∈ o, s.Legal (0 < d)) := by
  unfold forInitializer
  refine MeetsOn.ifAccept (fun semi _ _ hs => ?_) (MeetsOn.ifAccept (fun kw hn _ hk => ?_) ?_)
  · exact MeetsOn.pure (fun _ => ⟨by simp, by simp⟩) fun _ => ⟨.noInitializer hs, by simp⟩
  · refine Meets.bind (meets_variableDeclaration (by omega)) fun ts s _ ⟨_, h⟩ =>
      MeetsOn.pure (fun _ => ⟨by simp, by simpa using h⟩) ?_
    rintro - ⟨hd, hg⟩
    exact ⟨by simpa using .initializerVar hk hd, by simpa using hg⟩
  · refine Meets.bind (meets_expressionStatement hf) fun ts s _ ⟨hts, h⟩ =>
      MeetsOn.pure (fun _ => ⟨by simp [hts], by simpa using h⟩) ?_
    rintro - ⟨hd, hg⟩
    exact ⟨by simpa using .initializerExpr hd, by simpa using hg⟩

/-- What may be missing is derived from the symbol for that. -/
theorem derives_optional {ts : List Token} {o : Option Node} {f : Bool}
    (ha : o.elim (ts = []) fun e => ts ≠ [] ∧ e.IsExpression P)
    (hc : o.elim (ts = []) fun e => DerivesExpression .expression ts [e] ∧ e.Legal f) :
    Derives .optional ts o.toList ∧ ∀ e ∈ o, e.Legal f := by
  cases o with
  | none =>
    obtain rfl : ts = [] := hc
    exact ⟨.absent, by simp⟩
  | some e => exact ⟨.present hc.1, by simpa using hc.2⟩

/-- A declaration and those after it. -/
theorem meets_items {item : Reader (Option Node)} {items : Reader (List Node)}
    (hitem : item.MeetsOn (fun ts => Within P n ts ∧ ts ≠ []) d
      (fun ts _ o => ts ≠ [] ∧ ∀ s ∈ o, s.IsStatement P)
      (fun ts _ o => ∃ s ∈ o, Derives .declaration ts [s] ∧ s.Legal (0 < d)))
    (hitems : 0 < n → items.Meets P (n - 1) d (fun _ ss => Node.AllStatements P ss)
      (fun ts ss => Derives .program ts ss ∧ Node.AllLegal (0 < d) ss)) :
    (do
      let o ← item
      return o.toList ++ (← items)).MeetsOn (fun ts => Within P n ts ∧ ts ≠ []) d
      (fun _ _ ss => Node.AllStatements P ss)
      (fun ts _ ss => Derives .program ts ss ∧ Node.AllLegal (0 < d) ss) := by
  refine MeetsOn.bindOn hitem fun ts o ⟨_, hts, ho⟩ => ?_
  have hpos := List.length_pos_iff.mpr hts
  have hrest : ∀ us, Within P n (ts ++ us) ∧ ts ++ us ≠ [] → 0 < n ∧ Within P (n - 1) us := by
    rintro us ⟨hw, -⟩
    obtain ⟨_, hl, hP⟩ := hw.of_append
    exact ⟨by omega, by omega, hP⟩
  rcases Nat.eq_zero_or_pos n with hn | hn
  · exact fun _ c hc _ => absurd (hrest _ hc).1 (by omega)
  have more : (do return o.toList ++ (← items)).MeetsOn (Within P (n - 1)) d
      (fun _ _ ss => Node.AllStatements P ss)
      (fun us _ ss => (∃ s ∈ o, Derives .declaration ts [s] ∧ s.Legal (0 < d)) →
        Derives .program (ts ++ us) ss ∧ Node.AllLegal (0 < d) ss) := by
    refine Meets.bind (hitems hn) fun us ss _ hss => MeetsOn.pure (fun _ => ?_) ?_
    · rw [Node.allStatements_append, Node.allStatements_iff]
      exact ⟨by simpa using ho, hss⟩
    · rintro - ⟨hds, hgs⟩ ⟨s, hs, hd, hg⟩
      obtain rfl := Option.mem_def.mp hs
      exact ⟨by simpa using hd.more hds, hg, hgs⟩
  exact more.of_imp fun us h => (hrest us h).2

/-! ## The rules -/

/-- The specifications of the rules for statements and declarations, with the fuel that they
need. -/
structure StatementRules (P : Token → Prop) (fuel : Nat) : Prop where
  declaration {n d : Nat} : 20 * n + 12 ≤ fuel →
    (declaration fuel).MeetsOn (fun ts => Within P n ts ∧ ts ≠ []) d
      (fun ts _ o => ts ≠ [] ∧ ∀ s ∈ o, s.IsStatement P)
      (fun ts _ o => ∃ s ∈ o, Derives .declaration ts [s] ∧ s.Legal (0 < d))
  functionDeclaration {n d : Nat} : 20 * n + 1 ≤ fuel →
    (functionDeclaration fuel).Meets P n d (fun _ s => s.IsStatement P)
      (fun ts s => Derives .function ts [s] ∧ s.Legal (0 < d))
  statement {n d : Nat} : 20 * n + 11 ≤ fuel →
    (statement fuel).MeetsOn (Within P n) d (fun ts _ s => ts ≠ [] ∧ s.IsStatement P)
      (fun ts us s => DerivesStatement ts us s ∧ s.Legal (0 < d))
  forStatement {n d : Nat} : 20 * n + 1 ≤ fuel →
    (forStatement fuel).MeetsOn (Within P n) d (fun _ _ s => s.IsStatement P)
      (fun ts us s => DerivesAfter .forKw ts us s ∧ s.Legal (0 < d))
  ifStatement {n d : Nat} : 20 * n + 1 ≤ fuel →
    (ifStatement fuel).MeetsOn (Within P n) d (fun _ _ s => s.IsStatement P)
      (fun ts us s => DerivesAfter .ifKw ts us s ∧ s.Legal (0 < d))
  whileStatement {n d : Nat} : 20 * n + 1 ≤ fuel →
    (whileStatement fuel).MeetsOn (Within P n) d (fun _ _ s => s.IsStatement P)
      (fun ts us s => DerivesAfter .whileKw ts us s ∧ s.Legal (0 < d))
  blockBody {n d : Nat} : 20 * n + 14 ≤ fuel →
    (blockBody fuel).Meets P n d (fun _ ss => Node.AllStatements P ss)
      (fun ts ss => (∀ lb : Token, lb.kind = .leftBrace → Derives .block (lb :: ts) ss) ∧
        Node.AllLegal (0 < d) ss)
  blockItems {n d : Nat} : 20 * n + 13 ≤ fuel →
    (blockItems fuel).Meets P n d (fun _ ss => Node.AllStatements P ss)
      (fun ts ss => Derives .program ts ss ∧ Node.AllLegal (0 < d) ss)

namespace StatementRules

/-- A declaration that can be read is none of the others. -/
theorem declaration_succ (ih : StatementRules P fuel) (hf : 20 * n + 12 ≤ fuel + 1) :
    (Grammar.declaration (fuel + 1)).MeetsOn (fun ts => Within P n ts ∧ ts ≠ []) d
      (fun ts _ o => ts ≠ [] ∧ ∀ s ∈ o, s.IsStatement P)
      (fun ts _ o => ∃ s ∈ o, Derives .declaration ts [s] ∧ s.Legal (0 < d)) := by
  have rule : (do
      if ← accept .funcKw then Grammar.functionDeclaration fuel
      else if ← accept .varKw then variableDeclaration fuel
      else Grammar.statement fuel).MeetsOn (Within P n) d
      (fun ts _ s => ts ≠ [] ∧ s.IsStatement P)
      (fun ts _ s => Derives .declaration ts [s] ∧ s.Legal (0 < d)) := by
    refine MeetsOn.ifAccept (fun kw _ _ hk => ?_) (MeetsOn.ifAccept (fun kw _ _ hk => ?_) ?_)
    · refine (ih.functionDeclaration (by omega)).mono (fun _ _ _ h => ⟨by simp, h⟩) ?_
      exact fun _ _ _ _ h => ⟨h.1.funcDecl hk, h.2⟩
    · refine (meets_variableDeclaration (by omega)).mono (fun _ _ _ h => ⟨by simp, h.2⟩) ?_
      exact fun _ _ _ _ h => ⟨h.1.varDecl hk, h.2⟩
    · refine (ih.statement (by omega)).mono (fun _ _ _ h => h) ?_
      rintro ts us s - ⟨⟨_, hd, -⟩, hg⟩
      exact ⟨hd.statement, hg⟩
  rw [Grammar.declaration]
  have hp : ∀ ts, Within P n ts ∧ ts ≠ [] → Within P n ts := fun _ h => h.1
  refine (meets_recover (rule.of_imp hp) (fun _ _ _ h => h.1) fun _ h => h.2).mono ?_
    fun _ _ _ _ h => h
  exact fun _ _ _ h => ⟨h.1, fun s hs => (h.2 s hs).2⟩

/-- The body of a function is one level deeper, so a `return` may stand in it. -/
theorem functionDeclaration_succ (ih : StatementRules P fuel) (hf : 20 * n + 1 ≤ fuel + 1) :
    (Grammar.functionDeclaration (fuel + 1)).Meets P n d (fun _ s => s.IsStatement P)
      (fun ts s => Derives .function ts [s] ∧ s.Legal (0 < d)) := by
  rw [Grammar.functionDeclaration]
  refine Meets.bind (meets_expect _ _) fun ts₁ name hl₁ ⟨h₁, hP, hn⟩ => ?_
  obtain rfl := h₁
  refine Meets.bind (meets_expect _ _) fun ts₂ lp hl₂ ⟨h₂, _, hlp⟩ => ?_
  obtain rfl := h₂
  simp only [List.length_singleton] at hl₁ hl₂ ⊢
  refine Meets.bind (meets_unlessNext _ (meets_parameters (by omega))) fun ts₃ o hl₃ ho => ?_
  refine Meets.bind (meets_expect _ _) fun ts₄ rp hl₄ ⟨h₄, _, hrp⟩ => ?_
  obtain rfl := h₄
  refine Meets.bind (meets_expect _ _) fun ts₅ lb hl₅ ⟨h₅, _, hlb⟩ => ?_
  obtain rfl := h₅
  simp only [List.length_singleton] at hl₄ hl₅ ⊢
  refine Meets.bind (meets_inFunction (ih.blockBody (by omega))) fun ts₆ body _ hbody => ?_
  have hparams : ∀ p ∈ o.getD [], P p := by
    cases o with
    | none => simp
    | some names => exact ho.2
  refine MeetsOn.pure (fun _ => ⟨hP, hparams, hbody⟩) ?_
  rintro - ⟨hd, hg⟩ - - ho' - -
  cases o with
  | none =>
    obtain rfl : ts₃ = [] := ho
    exact ⟨by simpa using Derives.function hn hlp (.inl ⟨rfl, rfl⟩) hrp (hd lb hlb),
      by simp [maxArguments], by simpa using hg⟩
  | some names =>
    obtain ⟨hd', hlen⟩ := ho'
    exact ⟨by simpa using Derives.function hn hlp (.inr hd') hrp (hd lb hlb),
      by simpa using hlen, by simpa using hg⟩

/-- The first token of a statement says which rule reads it. -/
theorem statement_succ (ih : StatementRules P fuel) (hf : 20 * n + 11 ≤ fuel + 1) :
    (Grammar.statement (fuel + 1)).MeetsOn (Within P n) d
      (fun ts _ s => ts ≠ [] ∧ s.IsStatement P)
      (fun ts us s => DerivesStatement ts us s ∧ s.Legal (0 < d)) := by
  rw [Grammar.statement]
  refine MeetsOn.ifAccept (fun kw _ _ hk => ?_) (MeetsOn.ifAccept (fun kw _ _ hk => ?_)
    (MeetsOn.ifAccept (fun kw _ _ hk => ?_) ?_))
  · refine (ih.forStatement (by omega)).mono (fun _ _ _ h => ⟨by simp, h⟩) ?_
    exact fun _ _ _ _ h => ⟨h.1 kw hk, h.2⟩
  · refine (ih.ifStatement (by omega)).mono (fun _ _ _ h => ⟨by simp, h⟩) ?_
    exact fun _ _ _ _ h => ⟨h.1 kw hk, h.2⟩
  · refine (meets_printStatement (by omega)).mono (fun _ _ _ h => ⟨by simp, h⟩) ?_
    exact fun _ _ _ _ h => ⟨h.1 kw hk, h.2⟩
  refine MeetsOn.bind (meets_accept? _) fun ts o hl ⟨_, hts, ho⟩ => ?_
  rcases o with - | kw
  swap
  · obtain rfl : ts = [kw] := hts
    obtain ⟨hP, hk⟩ := ho kw rfl
    simp only [List.length_singleton] at hl
    refine (meets_returnStatement (by simp only [List.length_singleton]; omega) hP hk).mono
      (fun _ _ _ h => ⟨by simp, h⟩) ?_
    exact fun _ _ _ _ h _ => h
  obtain rfl : ts = [] := hts
  refine MeetsOn.ifAccept (fun kw _ _ hk => ?_) (MeetsOn.ifAccept (fun lb _ _ hk => ?_) ?_)
  · refine (ih.whileStatement (by simp only [List.length_nil]; omega)).mono
      (fun _ _ _ h => ⟨by simp, h⟩) ?_
    exact fun _ _ _ _ h _ => ⟨h.1 kw hk, h.2⟩
  · refine Meets.bind (ih.blockBody (by simp only [List.length_nil] at *; omega))
      fun us body _ hbody => MeetsOn.pure (fun _ => ⟨by simp, hbody⟩) ?_
    exact fun _ h _ => ⟨⟨false, by simpa using (h.1 lb hk).blockStmt, by simp⟩, h.2⟩
  · refine (meets_expressionStatement (by simp only [List.length_nil]; omega)).mono
      (fun _ _ _ h => h) ?_
    exact fun _ _ _ _ h _ => ⟨⟨false, by simpa using h.1.exprStmt, by simp⟩, h.2⟩

/-- Any of the clauses of a `for` loop may be missing. -/
theorem forStatement_succ (ih : StatementRules P fuel) (hf : 20 * n + 1 ≤ fuel + 1) :
    (Grammar.forStatement (fuel + 1)).MeetsOn (Within P n) d (fun _ _ s => s.IsStatement P)
      (fun ts us s => DerivesAfter .forKw ts us s ∧ s.Legal (0 < d)) := by
  rw [Grammar.forStatement]
  refine Meets.bind (meets_expect _ _) fun ts₁ lp hl₁ ⟨h₁, _, hlp⟩ => ?_
  obtain rfl := h₁
  simp only [List.length_singleton] at hl₁ ⊢
  refine Meets.bind (meets_forInitializer (by omega)) fun ts₂ i hl₂ ⟨hne, hi⟩ => ?_
  refine Meets.bind (meets_unlessNext _ ((expressionRules P fuel).expression (by omega)))
    fun ts₃ c hl₃ hc => ?_
  refine Meets.bind (meets_expect _ _) fun ts₄ semi hl₄ ⟨h₄, _, hs⟩ => ?_
  obtain rfl := h₄
  refine Meets.bind (meets_unlessNext _ ((expressionRules P fuel).expression (by omega)))
    fun ts₅ e hl₅ he => ?_
  refine Meets.bind (meets_expect _ _) fun ts₆ rp hl₆ ⟨h₆, _, hrp⟩ => ?_
  obtain rfl := h₆
  simp only [List.length_singleton] at hl₄ hl₆ ⊢
  refine MeetsOn.bind (ih.statement (by omega)) fun ts₇ b _ ⟨_, _, hb⟩ => ?_
  have hc' : ∀ m ∈ c, m.IsExpression P := by
    rintro m rfl
    exact hc.2
  have he' : ∀ m ∈ e, m.IsExpression P := by
    rintro m rfl
    exact he.2
  refine MeetsOn.pure (fun _ => Node.isStatement_forLoop hi hc' he' hb) ?_
  rintro us ⟨⟨dangling, hdb, hleft⟩, hgb⟩ - hed - hcd ⟨hdi, hgi⟩ -
  have hoc := derives_optional hc hcd
  have hoe := derives_optional he hed
  refine ⟨fun kw hkw => ⟨dangling, ?_, by simpa using hleft⟩, ?_⟩
  · simpa using Derives.forLoop hkw hlp hdi hoc.1 hs hoe.1 hrp hdb
  · exact Node.legal_forLoop.mpr ⟨hgi, hoc.2, hoe.2, hgb⟩

/-- An `else` that comes next is always taken. -/
theorem ifStatement_succ (ih : StatementRules P fuel) (hf : 20 * n + 1 ≤ fuel + 1) :
    (Grammar.ifStatement (fuel + 1)).MeetsOn (Within P n) d (fun _ _ s => s.IsStatement P)
      (fun ts us s => DerivesAfter .ifKw ts us s ∧ s.Legal (0 < d)) := by
  rw [Grammar.ifStatement]
  refine meets_condition (by omega) fun lp rp c ts hn hlp hrp hc => ?_
  refine MeetsOn.bind (ih.statement (by omega)) fun us t hl ⟨_, _, ht⟩ => ?_
  refine MeetsOn.bind (meets_accept _) fun vs b _ ⟨_, hvs⟩ => ?_
  rcases hvs with ⟨rfl, rfl⟩ | ⟨rfl, el, rfl, -, hel⟩
  · refine MeetsOn.pure_bind (MeetsOn.pure (fun _ => ⟨hc, ht⟩) ?_)
    rintro ws hne ⟨⟨_, hd, -⟩, hg⟩ hdc hgc
    refine ⟨fun kw hkw => ⟨true, ?_, fun _ => by simpa using hne⟩, hgc, hg⟩
    simpa using Derives.ifThen hkw hlp hdc hrp hd
  · simp only [if_true, Reader.map_bind]
    refine MeetsOn.bind (ih.statement (by omega)) fun ws e _ ⟨_, _, he⟩ => ?_
    refine MeetsOn.pure (fun _ => ⟨hc, ht, he⟩) ?_
    rintro xs ⟨⟨dangling, hde, hleft⟩, hge⟩ - ⟨⟨inner, hdt, hne⟩, hgt⟩ hdc hgc
    -- the first branch is followed by the `else`, so it cannot end in an open `if`
    obtain rfl : inner = false := by
      by_contra hi
      exact hne (by simpa using hi) el (by simp) hel
    refine ⟨fun kw hkw => ⟨dangling, ?_, by simpa using hleft⟩, hgc, hgt, hge⟩
    simpa using Derives.ifElse hkw hlp hdc hrp hdt hel hde

theorem whileStatement_succ (ih : StatementRules P fuel) (hf : 20 * n + 1 ≤ fuel + 1) :
    (Grammar.whileStatement (fuel + 1)).MeetsOn (Within P n) d (fun _ _ s => s.IsStatement P)
      (fun ts us s => DerivesAfter .whileKw ts us s ∧ s.Legal (0 < d)) := by
  rw [Grammar.whileStatement]
  refine meets_condition (by omega) fun lp rp c ts hn hlp hrp hc => ?_
  refine MeetsOn.bind (ih.statement (by omega)) fun us b _ ⟨_, _, hb⟩ => ?_
  refine MeetsOn.pure (fun _ => ⟨hc, hb⟩) ?_
  rintro vs ⟨⟨dangling, hdb, hleft⟩, hgb⟩ hdc hgc
  refine ⟨fun kw hkw => ⟨dangling, ?_, by simpa using hleft⟩, hgc, hgb⟩
  simpa using Derives.whileStmt hkw hlp hdc hrp hdb

theorem blockBody_succ (ih : StatementRules P fuel) (hf : 20 * n + 14 ≤ fuel + 1) :
    (Grammar.blockBody (fuel + 1)).Meets P n d (fun _ ss => Node.AllStatements P ss)
      (fun ts ss => (∀ lb : Token, lb.kind = .leftBrace → Derives .block (lb :: ts) ss) ∧
        Node.AllLegal (0 < d) ss) := by
  rw [Grammar.blockBody]
  refine Meets.bind (ih.blockItems (by omega)) fun ts ss _ hss => ?_
  refine Meets.bind (meets_expect _ _) fun us rb _ ⟨hus, _, hrb⟩ => ?_
  obtain rfl := hus
  refine MeetsOn.pure (fun _ => hss) ?_
  rintro - - ⟨hd, hg⟩
  exact ⟨fun lb hlb => by simpa using Derives.block hlb hd hrb, hg⟩

/-- A declaration that is read reads a token, or recovery drops one. -/
theorem blockItems_succ (ih : StatementRules P fuel) (hf : 20 * n + 13 ≤ fuel + 1) :
    (Grammar.blockItems (fuel + 1)).Meets P n d (fun _ ss => Node.AllStatements P ss)
      (fun ts ss => Derives .program ts ss ∧ Node.AllLegal (0 < d) ss) := by
  rw [Grammar.blockItems]
  refine MeetsOn.bind_nextKind? ?_ fun k => ?_
  · exact MeetsOn.pure (fun _ => trivial) fun _ => ⟨.noMore, trivial⟩
  · split
    · exact MeetsOn.pure (fun _ => trivial) fun _ => ⟨.noMore, trivial⟩
    · exact MeetsOn.pure (fun _ => trivial) fun _ => ⟨.noMore, trivial⟩
    · exact meets_items (ih.declaration (by omega)) fun _ => ih.blockItems (by omega)

end StatementRules

/-- The rules for statements meet their specifications. -/
theorem statementRules (P : Token → Prop) (fuel : Nat) : StatementRules P fuel := by
  induction fuel with
  | zero => constructor <;> intros <;> omega
  | succ fuel ih =>
    exact {
      declaration := ih.declaration_succ
      functionDeclaration := ih.functionDeclaration_succ
      statement := ih.statement_succ
      forStatement := ih.forStatement_succ
      ifStatement := ih.ifStatement_succ
      whileStatement := ih.whileStatement_succ
      blockBody := ih.blockBody_succ
      blockItems := ih.blockItems_succ }

theorem meets_declarations (hf : 20 * n + 13 ≤ fuel) :
    (declarations fuel).Meets P n d (fun _ ss => Node.AllStatements P ss)
      (fun ts ss => Derives .program ts ss ∧ Node.AllLegal (0 < d) ss) := by
  induction fuel generalizing n with
  | zero => omega
  | succ fuel ih =>
    rw [declarations]
    refine MeetsOn.bind_nextKind? ?_ fun k => ?_
    · exact MeetsOn.pure (fun _ => trivial) fun _ => ⟨.noMore, trivial⟩
    · exact meets_items ((statementRules P fuel).declaration (by omega)) fun _ => ih (by omega)

/-- A program is read to its end. -/
theorem rest_of_declarations {eof : Token} {c c' : Cursor} {ss : List Node}
    (h : declarations fuel eof c = .done ss c') : c'.rest = [] := by
  induction fuel generalizing c ss with
  | zero => simp [declarations] at h
  | succ fuel ih =>
    rw [declarations, bind_eq_done_iff] at h
    obtain ⟨o, c₁, h₁, h₂⟩ := h
    obtain ⟨rfl, rfl⟩ : c.rest.head?.map Token.kind = o ∧ c = c₁ := by
      simpa [nextKind?] using h₁
    cases hr : c.rest with
    | nil =>
      obtain ⟨-, rfl⟩ : [] = ss ∧ c = c' := by simpa [hr] using h₂
      exact hr
    | cons t rest =>
      simp only [hr, List.head?_cons, Option.map_some, bind_eq_done_iff] at h₂
      obtain ⟨_, _, -, _, _, h₃, h₄⟩ := h₂
      obtain ⟨-, rfl⟩ := by simpa using h₄
      exact ih h₃

end Lox.Grammar
