import Lox.Proofs.Grammar.Declares
import Lox.Proofs.Grammar.PredictiveExpressions
import Lox.Proofs.Grammar.Similarity

/-!
# Expression statements

A declaration is an expression statement exactly if it is read as one: no other rule has an
expression statement as its result, and no expression begins with a token that another rule for
statements begins with. And where there is no result, there was a fatal error.

## Main definitions

* `Reader.Yields P r`: all results of the reader satisfy `P`
* `Reader.Refuses kind r`: the reader does not succeed in front of a token of this kind
* `Reader.Raises r`: the reader fails with fatal errors only

## Main results

* `expressionStatement_of_declaration`, `declaration_of_expressionStatement`: the declarations that
  are expression statements
* `fatal_of_declaration`: a declaration without a result has a fatal error
-/

namespace Lox.Grammar

open Reader

variable {α β : Type} {fuel : Nat} {eof : Token} {c c' : Cursor}

/-! ## What a reader results in -/

/-- All results of the reader satisfy `P`. -/
def Reader.Yields (P : α → Prop) (r : Reader α) : Prop :=
  ∀ eof c a c', r eof c = .done a c' → P a

namespace Reader.Yields

variable {P : α → Prop}

theorem pure {a : α} (h : P a) : (Pure.pure a : Reader α).Yields P := by
  intro eof c b c' hr
  obtain ⟨rfl, -⟩ := Reply.done.inj hr
  exact h

theorem bind {x : Reader β} {k : β → Reader α} (h : ∀ b, (k b).Yields P) : (x >>= k).Yields P := by
  intro eof c a c' hr
  obtain ⟨b, d, -, hk⟩ := bind_eq_done_iff.mp hr
  exact h b eof d a c' hk

theorem ite {b : Prop} [Decidable b] {r r' : Reader α} (h : r.Yields P) (h' : r'.Yields P) :
    (if b then r else r').Yields P := by
  split
  · exact h
  · exact h'

end Reader.Yields

theorem accept_eq_false {kind : Kind} (h : accept kind eof c = .done false c') : c' = c := by
  obtain ⟨rest, d, errors⟩ := c
  cases rest with
  | nil => exact (Reply.done.inj h).2.symm
  | cons t rest =>
    by_cases hk : (t.kind == kind) = true
    · simp [accept, accept?, acceptIf?_apply, Reader.bind_apply, hk] at h
    · simpa [accept, accept?, acceptIf?_apply, Reader.bind_apply, hk, eq_comm] using h

/-- If the first one of two readers does not have the result then it is that of the second one. -/
theorem of_ifAccept {P : α → Prop} {kind : Kind} {r r' : Reader α} {a : α} (hr : r.Yields P)
    (ha : ¬P a) (h : (do if ← accept kind then r else r') eof c = .done a c') :
    r' eof c = .done a c' := by
  obtain ⟨b, d, hb, hd⟩ := bind_eq_done_iff.mp h
  cases b with
  | true => exact absurd (hr eof d a c' hd) ha
  | false =>
    rw [accept_eq_false hb] at hd
    exact hd

/-- The tree is no expression statement. -/
def NoExprStmt (n : Node) : Prop :=
  ∀ e, n ≠ .exprStmt e

theorem noExprStmt_forLoop (initializer condition increment : Option Node) (body : Node) :
    NoExprStmt (.forLoop initializer condition increment body) := by
  unfold Node.forLoop
  cases initializer <;> simp [NoExprStmt]

theorem yields_functionDeclaration (fuel : Nat) : (functionDeclaration fuel).Yields NoExprStmt := by
  cases fuel with
  | zero => exact fun _ _ _ _ h => absurd h (by simp [functionDeclaration])
  | succ fuel =>
    rw [functionDeclaration]
    exact .bind fun _ => .bind fun _ => .bind fun _ => .bind fun _ => .bind fun _ => .bind fun _ =>
      .pure fun _ => by simp

theorem yields_variableDeclaration (fuel : Nat) :
    (variableDeclaration fuel).Yields NoExprStmt := by
  have hend (name : Token) (o : Option Node) : (do
      let _ ← expect .semicolon .semicolonAfterVariable
      return Node.varDecl name o : Reader Node).Yields NoExprStmt :=
    .bind fun _ => .pure fun _ => by simp
  exact .bind fun name => .bind fun b => .ite (.bind fun _ => hend _ _) (.bind fun _ => hend _ _)

theorem yields_printStatement (fuel : Nat) : (printStatement fuel).Yields NoExprStmt :=
  .bind fun _ => .bind fun _ => .pure fun _ => by simp

theorem yields_returnStatement (fuel : Nat) (keyword : Token) :
    (returnStatement fuel keyword).Yields NoExprStmt := by
  have hend : (do
      let value ← unlessNext .semicolon (expression fuel)
      let _ ← expect .semicolon .semicolonAfterReturnValue
      return Node.returnStmt keyword value : Reader Node).Yields NoExprStmt :=
    .bind fun _ => .bind fun _ => .pure fun _ => by simp
  exact .bind fun _ => .ite (.bind fun _ => hend) hend

theorem yields_forStatement (fuel : Nat) : (forStatement fuel).Yields NoExprStmt := by
  cases fuel with
  | zero => exact fun _ _ _ _ h => absurd h (by simp [forStatement])
  | succ fuel =>
    rw [forStatement]
    exact .bind fun _ => .bind fun _ => .bind fun _ => .bind fun _ => .bind fun _ => .bind fun _ =>
      .bind fun _ => .pure (noExprStmt_forLoop _ _ _ _)

theorem yields_ifStatement (fuel : Nat) : (ifStatement fuel).Yields NoExprStmt := by
  cases fuel with
  | zero => exact fun _ _ _ _ h => absurd h (by simp [ifStatement])
  | succ fuel =>
    rw [ifStatement]
    refine .bind fun _ => .bind fun _ => .bind fun _ => .bind fun _ => .bind fun _ => .ite ?_ ?_ <;>
      exact .bind fun _ => .pure fun _ => by simp

theorem yields_whileStatement (fuel : Nat) : (whileStatement fuel).Yields NoExprStmt := by
  cases fuel with
  | zero => exact fun _ _ _ _ h => absurd h (by simp [whileStatement])
  | succ fuel =>
    rw [whileStatement]
    exact .bind fun _ => .bind fun _ => .bind fun _ => .bind fun _ => .pure fun _ => by simp

/-- A statement that is an expression statement is read as one. -/
theorem expressionStatement_of_statement {e : Node}
    (h : statement (fuel + 1) eof c = .done (.exprStmt e) c') :
    expressionStatement fuel eof c = .done (.exprStmt e) c' := by
  have he : ¬NoExprStmt (.exprStmt e) := fun hn => hn e rfl
  have hblock : (do return Node.block (← blockBody fuel) : Reader Node).Yields NoExprStmt :=
    .bind fun _ => .pure fun _ => by simp
  rw [statement] at h
  have h := of_ifAccept (yields_printStatement fuel) he
    (of_ifAccept (yields_ifStatement fuel) he (of_ifAccept (yields_forStatement fuel) he h))
  obtain ⟨o, d, ho, hd⟩ := bind_eq_done_iff.mp h
  cases o with
  | some keyword => exact absurd (yields_returnStatement fuel keyword eof d _ _ hd) he
  | none =>
    have hreturn : accept .returnKw eof c = .done false d := by
      rw [accept, Reader.bind_apply, ho]
      rfl
    rw [accept_eq_false hreturn] at hd
    exact of_ifAccept hblock he (of_ifAccept (yields_whileStatement fuel) he hd)

/-- A declaration that is an expression statement is read as one. -/
theorem expressionStatement_of_declaration {e : Node}
    (h : declaration fuel eof c = .done (some (.exprStmt e)) c') :
    ∃ fuel', expressionStatement fuel' eof c = .done (.exprStmt e) c' := by
  have he : ¬NoExprStmt (.exprStmt e) := fun hn => hn e rfl
  cases fuel with
  | zero => simp [declaration] at h
  | succ fuel =>
    rw [declaration, recover_apply] at h
    split at h
    · rename_i hr
      simp only [Reply.done.injEq, Option.some.injEq] at h
      obtain ⟨rfl, rfl⟩ := h
      have h := of_ifAccept (yields_variableDeclaration fuel) he
        (of_ifAccept (yields_functionDeclaration fuel) he hr)
      cases fuel with
      | zero => simp [statement] at h
      | succ fuel => exact ⟨fuel, expressionStatement_of_statement h⟩
    · simp at h
    · simp at h

/-! ## What a reader does not begin with -/

/-- The reader does not succeed in front of a token of this kind. -/
def Reader.Refuses (kind : Kind) (r : Reader α) : Prop :=
  ∀ eof c a c', upcoming c.rest = some kind → r eof c ≠ .done a c'

theorem Reader.Refuses.bind {kind : Kind} {x : Reader β} (h : x.Refuses kind) (k : β → Reader α) :
    (x >>= k).Refuses kind := by
  intro eof c a c' hc hr
  obtain ⟨b, d, hb, -⟩ := bind_eq_done_iff.mp hr
  exact h eof c b d hc hb

theorem refuses_acceptIf? {kind : Kind} {wanted : Kind → Bool} {next : Option Token → Reader α}
    (hw : wanted kind = false) (h : (next none).Refuses kind) :
    (acceptIf? wanted >>= next).Refuses kind := by
  intro eof c a c' hc hr
  have hunwanted : Unwanted wanted (upcoming c.rest) := by
    rw [hc]
    rintro k ⟨⟩
    exact hw
  rw [show (acceptIf? wanted >>= next) eof c = next none eof c from
    acceptIf?_bind_none hunwanted eof c.functionDepth c.errors] at hr
  exact h eof c a c' hc hr

theorem refuses_unfinished {kind : Kind} : (unfinished : Reader α).Refuses kind :=
  fun _ _ _ _ _ h => absurd h (by simp)

/-- The kinds of tokens that begin another declaration or statement. -/
def otherStatements : List Kind :=
  [.funcKw, .varKw, .forKw, .ifKw, .printKw, .returnKw, .whileKw, .leftBrace]

theorem refuses_primary {kind : Kind} (hk : kind ∈ otherStatements) (fuel : Nat) :
    (primary fuel).Refuses kind := by
  have hkind : isLiteral kind = false ∧ (kind == .identifier) = false ∧
      (kind == .leftParen) = false := by
    revert kind
    decide
  cases fuel with
  | zero => exact refuses_unfinished
  | succ fuel =>
    rw [primary, acceptLiteral?_bind]
    refine refuses_acceptIf? hkind.1 (refuses_acceptIf? hkind.2.1 ?_)
    simp only [accept_bind]
    refine refuses_acceptIf? hkind.2.2 ?_
    exact fun _ _ _ _ _ h => absurd h (by simp)

theorem refuses_prefixed {kind : Kind} (hk : kind ∈ otherStatements) (fuel : Nat) :
    (prefixed fuel).Refuses kind := by
  have hkind : isUnaryOperator kind = false := by
    revert kind
    decide
  cases fuel with
  | zero => exact refuses_unfinished
  | succ fuel =>
    rw [prefixed]
    exact refuses_acceptIf? hkind ((refuses_primary hk fuel).bind _)

theorem refuses_operation {kind : Kind} (hk : kind ∈ otherStatements) (fuel : Nat)
    (ls : List Level) : (operation fuel ls).Refuses kind := by
  induction fuel generalizing ls with
  | zero =>
    rw [operation]
    exact refuses_unfinished
  | succ fuel ih =>
    cases ls with
    | nil => exact refuses_prefixed hk fuel
    | cons l ls =>
      rw [operation]
      exact (ih ls).bind _

/-- No expression begins like another statement. -/
theorem refuses_expression {kind : Kind} (hk : kind ∈ otherStatements) (fuel : Nat) :
    (expression fuel).Refuses kind := by
  cases fuel with
  | zero => exact refuses_unfinished
  | succ fuel =>
    rw [expression]
    exact (refuses_operation hk fuel _).bind _

theorem accept?_of_ne {kind : Kind} {next : Option Token → Reader α}
    (h : upcoming c.rest ≠ some kind) : (accept? kind >>= next) eof c = next none eof c := by
  refine acceptIf?_bind_none (fun k hk => ?_) eof c.functionDepth c.errors
  simpa using fun hkind : k = kind => h (hkind ▸ hk)

theorem ifAccept_of_ne {kind : Kind} {r r' : Reader α} (h : upcoming c.rest ≠ some kind) :
    (do if ← accept kind then r else r') eof c = r' eof c := by
  rw [accept_bind]
  exact accept?_of_ne h

/-- An expression statement is a declaration. -/
theorem declaration_of_expressionStatement {s : Node}
    (h : expressionStatement fuel eof c = .done s c') :
    declaration (fuel + 2) eof c = .done (some s) c' := by
  have hne : ∀ kind ∈ otherStatements, upcoming c.rest ≠ some kind := fun kind hk hc =>
    (refuses_expression hk fuel).bind _ eof c s c' hc h
  have hstatement : statement (fuel + 1) eof c = .done s c' := by
    rw [statement, ifAccept_of_ne (hne .forKw (by decide)), ifAccept_of_ne (hne .ifKw (by decide)),
      ifAccept_of_ne (hne .printKw (by decide)), accept?_of_ne (hne .returnKw (by decide))]
    dsimp only
    rw [ifAccept_of_ne (hne .whileKw (by decide)), ifAccept_of_ne (hne .leftBrace (by decide)), h]
  rw [declaration, recover_apply, ifAccept_of_ne (hne .funcKw (by decide)),
    ifAccept_of_ne (hne .varKw (by decide)), hstatement]

/-! ## What a reader fails with -/

/-- The reader fails with fatal errors only, which it records. -/
def Reader.Raises (r : Reader α) : Prop :=
  ∀ eof c e c', r eof c = .failed e c' → e.fault.isFatal = true ∧ e ∈ c'.errors

theorem Reader.Raises.bind {x : Reader β} {k : β → Reader α} (h : x.Raises)
    (hk : ∀ b, (k b).Raises) : (x >>= k).Raises := by
  intro eof c e c' hr
  obtain hx | ⟨b, d, -, hb⟩ := bind_eq_failed_iff.mp hr
  · exact h eof c e c' hx
  · exact hk b eof d e c' hb

theorem Reader.Raises.ite {b : Prop} [Decidable b] {r r' : Reader α} (h : r.Raises)
    (h' : r'.Raises) : (if b then r else r').Raises := by
  split
  · exact h
  · exact h'

/-- The reader does not fail. -/
def Reader.Succeeds (r : Reader α) : Prop :=
  ∀ eof c e c', r eof c ≠ .failed e c'

theorem Reader.Succeeds.raises {r : Reader α} (h : r.Succeeds) : r.Raises :=
  fun eof c e c' hr => absurd hr (h eof c e c')

theorem succeeds_pure (a : α) : (pure a : Reader α).Succeeds :=
  fun _ _ _ _ => by simp

theorem succeeds_unfinished : (unfinished : Reader α).Succeeds :=
  fun _ _ _ _ => by simp

theorem succeeds_nextKind? : nextKind?.Succeeds :=
  fun _ _ _ _ => by simp [nextKind?_apply]

theorem succeeds_functionDepth : functionDepth.Succeeds :=
  fun _ _ _ _ => by simp

theorem succeeds_recordAt (fault : SyntaxFault) (t : Token) : (recordAt fault t).Succeeds :=
  fun _ _ _ _ => by simp

theorem succeeds_record (fault : SyntaxFault) : (record fault).Succeeds :=
  fun eof _ => succeeds_recordAt fault _ eof _

theorem succeeds_acceptIf? (wanted : Kind → Bool) : (acceptIf? wanted).Succeeds := by
  intro eof c e c'
  rw [acceptIf?_apply]
  split
  · split <;> simp
  · simp

theorem succeeds_recover (r : Reader α) : (recover r).Succeeds := by
  intro eof c e c'
  rw [recover_apply]
  split <;> simp

theorem raises_accept (kind : Kind) : (accept kind).Raises :=
  (succeeds_acceptIf? _).raises.bind fun _ => (succeeds_pure _).raises

theorem raises_fail {fault : SyntaxFault} (hf : fault.isFatal = true) :
    (fail fault : Reader α).Raises := by
  intro eof c e c' hr
  obtain ⟨rfl, rfl⟩ := Reply.failed.inj hr
  exact ⟨hf, List.mem_cons_self⟩

theorem raises_inFunction {r : Reader α} (h : r.Raises) : (inFunction r).Raises := by
  intro eof c e c' hr
  rw [inFunction_apply] at hr
  cases hin : r eof { c with functionDepth := c.functionDepth + 1 } with
  | done a d => simp [hin] at hr
  | failed e' d =>
    rw [hin] at hr
    obtain ⟨rfl, rfl⟩ := Reply.failed.inj hr
    exact h eof _ e' d hin
  | unfinished => simp [hin] at hr

/-- A rule fails where one of its steps does. -/
theorem similarSteps_raises :
    SimilarSteps id readerSteps readerSteps (fun _ r _ => r.Raises) (fun _ r _ => r.Raises) where
  pure _ a := (succeeds_pure a).raises
  bind h hk := h.bind hk
  unfinished _ := succeeds_unfinished.raises
  acceptIf? _ := (succeeds_acceptIf? _).raises
  check _ := succeeds_nextKind?.raises.bind fun _ => (succeeds_pure _).raises
  recordTarget t := (succeeds_recordAt _ t).raises
  recordArguments := (succeeds_record _).raises
  fail _ := raises_fail
  acceptAny wanted := (succeeds_acceptIf? wanted).raises
  recordReturn t := (succeeds_recordAt _ t).raises
  recordParameters := (succeeds_record _).raises
  functionDepth := succeeds_functionDepth.raises
  inFunction := raises_inFunction
  recover _ := (succeeds_recover _).raises
  ahead h := h
  bindAhead h hk := h.bind hk
  branch h hk := succeeds_nextKind?.raises.bind fun o => by
    cases o with
    | none => exact h
    | some kind => exact hk kind

/-- A declaration without a result has a fatal error. -/
theorem fatal_of_declaration (h : declaration fuel eof c = .done none c') :
    ∃ e ∈ c'.errors, e.fault.isFatal = true := by
  cases fuel with
  | zero => simp [declaration] at h
  | succ fuel =>
    have rules := similarStatementRules similarSteps_raises relabels_id fuel
    have hvariable := similar_variableDeclaration similarSteps_raises relabels_id fuel
    have hraises := (raises_accept .funcKw).bind fun b => .ite (b := b = true)
      rules.functionDeclaration ((raises_accept .varKw).bind fun b => .ite (b := b = true)
        hvariable rules.statement)
    rw [declaration, recover_apply] at h
    split at h
    · simp at h
    · rename_i e d hr
      obtain ⟨-, rfl⟩ := Reply.done.inj h
      obtain ⟨he, hmem⟩ := hraises eof c e d hr
      exact ⟨e, hmem, he⟩
    · simp at h

end Lox.Grammar
