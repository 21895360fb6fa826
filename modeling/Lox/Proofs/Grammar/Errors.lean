import Lox.Grammar.Program

/-!
# Earlier errors make no difference to readers

A reader adds errors to those that it finds, and takes no notice of these. So what it does after
some errors is what it does after none, and the errors in the end are its own on top of the earlier
ones.

## Main definitions

* `Reply.above errors reply`: the reply, with other errors below its own
* `Reader.Additive r`: earlier errors make no difference to the reader `r`

## Main results

* `Reader.Additive.errors_suffix`: no error is lost
* `additiveExpressionRules`, `additiveStatementRules`, `additive_declarations`: so it is with all
  the rules of the grammar
-/

namespace Lox.Grammar

variable {α β : Type}

/-- The same end, with these errors below. -/
def Reply.above (errors : List SyntaxError) : Reply α → Reply α
  | .done a c => .done a { c with errors := c.errors ++ errors }
  | .failed e c => .failed e { c with errors := c.errors ++ errors }
  | .unfinished => .unfinished

theorem Reply.above_above (errors errors' : List SyntaxError) (reply : Reply α) :
    (reply.above errors).above errors' = reply.above (errors ++ errors') := by
  cases reply <;> simp [above]

namespace Reader

variable {r r' : Reader α}

/-- After some errors, the reader does what it does after none. -/
def Additive (r : Reader α) : Prop :=
  ∀ eof ts d errors, r eof ⟨ts, d, errors⟩ = (r eof ⟨ts, d, []⟩).above errors

theorem Additive.pure (a : α) : Additive (Pure.pure a : Reader α) :=
  fun _ _ _ _ => rfl

theorem Additive.bind {k : α → Reader β} (h : Additive r) (hk : ∀ a, Additive (k a)) :
    Additive (r >>= k) := by
  intro eof ts d errors
  rw [bind_apply, bind_apply, h eof ts d errors]
  cases r eof ⟨ts, d, []⟩ with
  | done a c =>
    show k a eof ⟨c.rest, c.functionDepth, c.errors ++ errors⟩ = (k a eof c).above errors
    rw [hk a eof c.rest c.functionDepth (c.errors ++ errors),
      show k a eof c = _ from hk a eof c.rest c.functionDepth c.errors, Reply.above_above]
  | failed e c => rfl
  | unfinished => rfl

theorem Additive.map {f : α → β} (h : Additive r) : Additive (do return f (← r)) :=
  h.bind fun _ => .pure _

theorem Additive.ite {b : Prop} [Decidable b] (h : Additive r) (h' : Additive r') :
    Additive (if b then r else r') := by
  split
  · exact h
  · exact h'

/-- The errors that were there are there in the end. -/
theorem Additive.errors_suffix (h : Additive r) {eof : Token} {c c' : Cursor} :
    (∀ {a}, r eof c = .done a c' → c.errors <:+ c'.errors) ∧
      ∀ {e}, r eof c = .failed e c' → c.errors <:+ c'.errors := by
  have hr : r eof c = (r eof ⟨c.rest, c.functionDepth, []⟩).above c.errors :=
    h eof c.rest c.functionDepth c.errors
  rw [hr]
  cases r eof ⟨c.rest, c.functionDepth, []⟩ with
  | done a d =>
    refine ⟨fun he => ?_, fun he => by simp [Reply.above] at he⟩
    obtain ⟨-, rfl⟩ := Reply.done.inj he
    exact List.suffix_append _ _
  | failed e d =>
    refine ⟨fun he => by simp [Reply.above] at he, fun he => ?_⟩
    obtain ⟨-, rfl⟩ := Reply.failed.inj he
    exact List.suffix_append _ _
  | unfinished => simp [Reply.above]

end Reader

/-! ## Steps -/

open Reader

variable {r : Reader α}

theorem additive_unfinished : Additive (unfinished : Reader α) :=
  fun _ _ _ _ => rfl

theorem additive_nextKind? : Additive nextKind? :=
  fun _ _ _ _ => rfl

theorem additive_functionDepth : Additive functionDepth :=
  fun _ _ _ _ => rfl

theorem additive_recordAt (fault : SyntaxFault) (token : Token) :
    Additive (recordAt fault token) :=
  fun _ _ _ _ => rfl

theorem additive_record (fault : SyntaxFault) : Additive (record fault) :=
  fun _ _ _ _ => rfl

theorem additive_fail (fault : SyntaxFault) : Additive (fail fault : Reader α) :=
  fun _ _ _ _ => rfl

theorem additive_acceptIf? (wanted : Kind → Bool) : Additive (acceptIf? wanted) := by
  intro eof ts d errors
  cases ts with
  | nil => rfl
  | cons t ts =>
    simp only [acceptIf?_apply]
    split <;> rfl

theorem additive_accept? (kind : Kind) : Additive (accept? kind) :=
  additive_acceptIf? _

theorem additive_accept (kind : Kind) : Additive (accept kind) :=
  (additive_accept? kind).bind fun _ => .pure _

theorem additive_expect (kind : Kind) (fault : SyntaxFault) : Additive (expect kind fault) := by
  refine (additive_accept? kind).bind fun o => ?_
  cases o with
  | none => exact additive_fail fault
  | some t => exact .pure t

theorem Reader.Additive.unlessNext {kind : Kind} (h : Additive r) :
    Additive (unlessNext kind r) :=
  (additive_nextKind?.bind fun _ => .pure _).bind fun _ =>
    .ite (.pure _) (h.bind fun _ => .pure _)

theorem Reader.Additive.inFunction (h : Additive r) : Additive (inFunction r) := by
  intro eof ts d errors
  simp only [inFunction_apply, h eof ts (d + 1) errors]
  cases r eof ⟨ts, d + 1, []⟩ <;> rfl

theorem Reader.Additive.recover (h : Additive r) : Additive (recover r) := by
  intro eof ts d errors
  simp only [recover_apply, h eof ts d errors]
  cases r eof ⟨ts, d, []⟩ <;> rfl

/-- An error may be recorded first. -/
theorem Reader.Additive.noting {b : Prop} [Decidable b] {note : Reader Unit} (hn : Additive note)
    (h : Additive r) : Additive (if b then note >>= fun _ => r else r) :=
  .ite (hn.bind fun _ => h) h

/-! ## Expressions -/

theorem additive_acceptLiteral? : Additive acceptLiteral? := by
  refine (additive_acceptIf? _).bind fun o => ?_
  cases o with
  | none => exact .pure _
  | some t => exact .pure _

/-- Earlier errors make no difference to the rules for expressions. -/
structure AdditiveExpressionRules (fuel : Nat) : Prop where
  expression : Additive (expression fuel)
  operation (ls : List Level) : Additive (operation fuel ls)
  operands (l : Level) (ls : List Level) (e : Node) : Additive (operands fuel l ls e)
  prefixed : Additive (prefixed fuel)
  calls (e : Node) : Additive (calls fuel e)
  arguments (count : Nat) : Additive (arguments fuel count)
  primary : Additive (primary fuel)

namespace AdditiveExpressionRules

variable {fuel : Nat}

theorem succ (ih : AdditiveExpressionRules fuel) : AdditiveExpressionRules (fuel + 1) where
  expression := by
    rw [Grammar.expression]
    refine (ih.operation _).bind fun left => (additive_accept? _).bind fun o => ?_
    cases o with
    | none => exact .pure _
    | some equals =>
      refine ih.expression.bind fun value => ?_
      split
      · exact .pure _
      · exact (additive_recordAt _ _).bind fun _ => .pure _
  operation ls := by
    cases ls with
    | nil => exact ih.prefixed
    | cons l ls => exact (ih.operation ls).bind fun left => ih.operands l ls left
  operands l ls e := by
    rw [Grammar.operands]
    refine (additive_acceptIf? _).bind fun o => ?_
    cases o with
    | none => exact .pure _
    | some operator => exact (ih.operation ls).bind fun right => ih.operands l ls _
  prefixed := by
    rw [Grammar.prefixed]
    refine (additive_acceptIf? _).bind fun o => ?_
    cases o with
    | some operator => exact ih.prefixed.bind fun _ => .pure _
    | none => exact ih.primary.bind fun callee => ih.calls callee
  calls e := by
    rw [Grammar.calls]
    refine (additive_accept _).bind fun b => .ite ?_ (.pure _)
    exact (ih.arguments 0).unlessNext.bind fun _ => (additive_expect _ _).bind fun _ => ih.calls _
  arguments count := by
    rw [Grammar.arguments]
    refine .noting (additive_record _) (ih.expression.bind fun _ => ?_)
    exact (additive_accept _).bind fun _ => .ite ((ih.arguments _).bind fun _ => .pure _) (.pure _)
  primary := by
    rw [Grammar.primary]
    refine additive_acceptLiteral?.bind fun o => ?_
    cases o with
    | some v => exact .pure _
    | none =>
      refine (additive_accept? _).bind fun o => ?_
      cases o with
      | some name => exact .pure _
      | none =>
        refine (additive_accept _).bind fun _ => .ite ?_ (additive_fail _)
        exact ih.expression.bind fun _ => (additive_expect _ _).bind fun _ => .pure _

end AdditiveExpressionRules

theorem additiveExpressionRules (fuel : Nat) : AdditiveExpressionRules fuel := by
  induction fuel with
  | zero =>
    constructor <;> intros <;>
      simp only [expression, operation, operands, prefixed, calls, arguments, primary] <;>
      exact additive_unfinished
  | succ fuel ih => exact ih.succ

/-! ## Statements -/

section

variable (fuel : Nat)

theorem additive_parameters (count : Nat) : Additive (parameters fuel count) := by
  induction fuel generalizing count with
  | zero => exact additive_unfinished
  | succ fuel ih =>
    rw [parameters]
    refine .noting (additive_record _) ((additive_expect _ _).bind fun _ => ?_)
    exact (additive_accept _).bind fun _ => .ite ((ih _).bind fun _ => .pure _) (.pure _)

theorem additive_expression : Additive (expression fuel) :=
  (additiveExpressionRules fuel).expression

theorem additive_variableDeclaration : Additive (variableDeclaration fuel) := by
  refine (additive_expect _ _).bind fun _ => (additive_accept _).bind fun _ => .ite ?_ ?_
  · exact (additive_expression fuel).map.bind fun _ => (additive_expect _ _).bind fun _ => .pure _
  · exact (Additive.pure none).bind fun _ => (additive_expect _ _).bind fun _ => .pure _

theorem additive_expressionStatement : Additive (expressionStatement fuel) :=
  (additive_expression fuel).bind fun _ => (additive_expect _ _).bind fun _ => .pure _

theorem additive_printStatement : Additive (printStatement fuel) :=
  (additive_expression fuel).bind fun _ => (additive_expect _ _).bind fun _ => .pure _

theorem additive_returnStatement (keyword : Token) : Additive (returnStatement fuel keyword) := by
  refine additive_functionDepth.bind fun _ => .noting (additive_recordAt _ _) ?_
  exact (additive_expression fuel).unlessNext.bind fun _ =>
    (additive_expect _ _).bind fun _ => .pure _

theorem additive_forInitializer : Additive (forInitializer fuel) := by
  refine (additive_accept _).bind fun _ => .ite (.pure _) ((additive_accept _).bind fun _ => ?_)
  refine .ite ?_ ?_
  · exact (additive_variableDeclaration fuel).bind fun _ => .pure _
  · exact (additive_expressionStatement fuel).bind fun _ => .pure _

end

/-- Earlier errors make no difference to the rules for statements. -/
structure AdditiveStatementRules (fuel : Nat) : Prop where
  declaration : Additive (declaration fuel)
  functionDeclaration : Additive (functionDeclaration fuel)
  statement : Additive (statement fuel)
  forStatement : Additive (forStatement fuel)
  ifStatement : Additive (ifStatement fuel)
  whileStatement : Additive (whileStatement fuel)
  blockBody : Additive (blockBody fuel)
  blockItems : Additive (blockItems fuel)

namespace AdditiveStatementRules

variable {fuel : Nat}

theorem succ (ih : AdditiveStatementRules fuel) : AdditiveStatementRules (fuel + 1) where
  declaration := by
    rw [Grammar.declaration]
    refine Additive.recover ((additive_accept _).bind fun _ => .ite ih.functionDeclaration ?_)
    exact (additive_accept _).bind fun _ => .ite (additive_variableDeclaration fuel) ih.statement
  functionDeclaration := by
    rw [Grammar.functionDeclaration]
    refine (additive_expect _ _).bind fun _ => (additive_expect _ _).bind fun _ => ?_
    refine (additive_parameters fuel 0).unlessNext.bind fun _ => ?_
    refine (additive_expect _ _).bind fun _ => (additive_expect _ _).bind fun _ => ?_
    exact ih.blockBody.inFunction.bind fun _ => .pure _
  statement := by
    rw [Grammar.statement]
    refine (additive_accept _).bind fun _ => .ite ih.forStatement ?_
    refine (additive_accept _).bind fun _ => .ite ih.ifStatement ?_
    refine (additive_accept _).bind fun _ => .ite (additive_printStatement fuel) ?_
    refine (additive_accept? _).bind fun o => ?_
    cases o with
    | some keyword => exact additive_returnStatement fuel keyword
    | none =>
      refine (additive_accept _).bind fun _ => .ite ih.whileStatement ?_
      refine (additive_accept _).bind fun _ => .ite (ih.blockBody.bind fun _ => .pure _) ?_
      exact additive_expressionStatement fuel
  forStatement := by
    rw [Grammar.forStatement]
    have clause (kind : Kind) : Additive (unlessNext kind (expression fuel)) :=
      (additive_expression fuel).unlessNext
    refine (additive_expect _ _).bind fun _ => (additive_forInitializer fuel).bind fun _ => ?_
    refine (clause _).bind fun _ => (additive_expect _ _).bind fun _ => ?_
    refine (clause _).bind fun _ => (additive_expect _ _).bind fun _ => ?_
    exact ih.statement.bind fun _ => .pure _
  ifStatement := by
    rw [Grammar.ifStatement]
    refine (additive_expect _ _).bind fun _ => (additive_expression fuel).bind fun _ => ?_
    refine (additive_expect _ _).bind fun _ => ih.statement.bind fun _ => ?_
    refine (additive_accept _).bind fun _ => .ite ?_ ?_
    · exact ih.statement.map.bind fun _ => .pure _
    · exact (Additive.pure none).bind fun _ => .pure _
  whileStatement := by
    rw [Grammar.whileStatement]
    refine (additive_expect _ _).bind fun _ => (additive_expression fuel).bind fun _ => ?_
    exact (additive_expect _ _).bind fun _ => ih.statement.bind fun _ => .pure _
  blockBody := by
    rw [Grammar.blockBody]
    exact ih.blockItems.bind fun _ => (additive_expect _ _).bind fun _ => .pure _
  blockItems := by
    rw [Grammar.blockItems]
    refine additive_nextKind?.bind fun k => ?_
    split
    · exact .pure _
    · exact .pure _
    · exact ih.declaration.bind fun _ => ih.blockItems.bind fun _ => .pure _

end AdditiveStatementRules

theorem additiveStatementRules (fuel : Nat) : AdditiveStatementRules fuel := by
  induction fuel with
  | zero =>
    constructor <;>
      simp only [declaration, functionDeclaration, statement, forStatement, ifStatement,
        whileStatement, blockBody, blockItems] <;>
      exact additive_unfinished
  | succ fuel ih => exact ih.succ

theorem additive_declarations (fuel : Nat) : Additive (declarations fuel) := by
  induction fuel with
  | zero => exact additive_unfinished
  | succ fuel ih =>
    rw [declarations]
    refine additive_nextKind?.bind fun k => ?_
    cases k with
    | none => exact .pure _
    | some k =>
      exact (additiveStatementRules fuel).declaration.bind fun _ => ih.bind fun _ => .pure _

end Lox.Grammar
