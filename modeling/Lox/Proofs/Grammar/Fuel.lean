import Lox.Grammar.Program

/-!
# Fuel makes no difference to readers

A reader that ends does the same with more fuel. So what a source is does not depend on how much
fuel its parser was given, once that was enough.

## Main definitions

* `Reader.Below r r'`: the reader `r` runs out of fuel, or does what `r'` does
* `MoreExpressionFuel`, `MoreStatementFuel`: the rules with less fuel are below those with more

## Main results

* `moreExpressionFuel`, `moreStatementFuel`: more fuel does not change a reader that ends
* `below_declarations`: so it is with programs
-/

namespace Lox.Grammar

namespace Reader

variable {α β : Type} {r r' : Reader α}

/-- In front of all tokens, the first reader runs out of fuel or does what the second one does. -/
def Below (r r' : Reader α) : Prop :=
  ∀ eof c, r eof c = .unfinished ∨ r eof c = r' eof c

theorem Below.refl (r : Reader α) : Below r r :=
  fun _ _ => .inr rfl

theorem below_unfinished (r : Reader α) : Below unfinished r :=
  fun _ _ => .inl rfl

theorem Below.bind {k k' : α → Reader β} (h : Below r r') (hk : ∀ a, Below (k a) (k' a)) :
    Below (r >>= k) (r' >>= k') := by
  intro eof c
  rw [bind_apply, bind_apply]
  rcases h eof c with hr | hr
  · exact .inl (by rw [hr])
  rw [← hr]
  cases r eof c with
  | done a c' => exact hk a eof c'
  | failed e c' => exact .inr rfl
  | unfinished => exact .inl rfl

/-- Something that needs no fuel comes first. -/
theorem Below.after (r : Reader α) {k k' : α → Reader β} (hk : ∀ a, Below (k a) (k' a)) :
    Below (r >>= k) (r >>= k') :=
  (Below.refl r).bind hk

theorem Below.map {f : α → β} (h : Below r r') : Below (do return f (← r)) (do return f (← r')) :=
  h.bind fun _ => .refl _

theorem Below.ite {b : Prop} [Decidable b] {s s' : Reader α} (h : Below r r') (h' : Below s s') :
    Below (if b then r else s) (if b then r' else s') := by
  split
  · exact h
  · exact h'

theorem Below.unlessNext {kind : Kind} (h : Below r r') :
    Below (unlessNext kind r) (unlessNext kind r') :=
  .after _ fun _ => .ite (.refl _) (h.bind fun _ => .refl _)

theorem Below.inFunction (h : Below r r') : Below (inFunction r) (inFunction r') := by
  intro eof c
  rw [inFunction_apply, inFunction_apply]
  rcases h eof { c with functionDepth := c.functionDepth + 1 } with hr | hr
  · exact .inl (by rw [hr])
  · exact .inr (by rw [hr])

theorem Below.recover (h : Below r r') : Below (recover r) (recover r') := by
  intro eof c
  rw [recover_apply, recover_apply]
  rcases h eof c with hr | hr
  · exact .inl (by rw [hr])
  · exact .inr (by rw [hr])

/-- A reader that ends is the same as one that it is below. -/
theorem Below.eq (h : Below r r') {eof : Token} {c : Cursor} (hr : r eof c ≠ .unfinished) :
    r' eof c = r eof c :=
  ((h eof c).resolve_left hr).symm

end Reader

open Reader

variable {fuel fuel' : Nat}

/-! ## Expressions -/

/-- The rules for expressions with less fuel are below those with more. -/
structure MoreExpressionFuel (fuel fuel' : Nat) : Prop where
  expression : Below (expression fuel) (expression fuel')
  operation (ls : List Level) : Below (operation fuel ls) (operation fuel' ls)
  operands (l : Level) (ls : List Level) (e : Node) :
    Below (operands fuel l ls e) (operands fuel' l ls e)
  prefixed : Below (prefixed fuel) (prefixed fuel')
  calls (e : Node) : Below (calls fuel e) (calls fuel' e)
  arguments (count : Nat) : Below (arguments fuel count) (arguments fuel' count)
  primary : Below (primary fuel) (primary fuel')

namespace MoreExpressionFuel

theorem succ (ih : MoreExpressionFuel fuel fuel') :
    MoreExpressionFuel (fuel + 1) (fuel' + 1) where
  expression := by
    rw [Grammar.expression, Grammar.expression]
    refine (ih.operation _).bind fun left => .after _ fun o => ?_
    cases o with
    | none => exact .refl _
    | some equals => exact ih.expression.bind fun _ => .refl _
  operation ls := by
    cases ls with
    | nil => exact ih.prefixed
    | cons l ls => exact (ih.operation ls).bind fun left => ih.operands l ls left
  operands l ls e := by
    rw [Grammar.operands, Grammar.operands]
    refine .after _ fun o => ?_
    cases o with
    | none => exact .refl _
    | some operator => exact (ih.operation ls).bind fun right => ih.operands l ls _
  prefixed := by
    rw [Grammar.prefixed, Grammar.prefixed]
    refine .after _ fun o => ?_
    cases o with
    | some operator => exact ih.prefixed.bind fun _ => .refl _
    | none => exact ih.primary.bind fun callee => ih.calls callee
  calls e := by
    rw [Grammar.calls, Grammar.calls]
    refine .after _ fun b => .ite ?_ (.refl _)
    exact (ih.arguments 0).unlessNext.bind fun _ => .after _ fun _ => ih.calls _
  arguments count := by
    rw [Grammar.arguments, Grammar.arguments]
    have hrest : Below (do
        let argument ← Grammar.expression fuel
        if ← accept .comma then return argument :: (← Grammar.arguments fuel (count + 1))
        else return [argument]) (do
        let argument ← Grammar.expression fuel'
        if ← accept .comma then return argument :: (← Grammar.arguments fuel' (count + 1))
        else return [argument]) :=
      ih.expression.bind fun _ => .after _ fun _ =>
        .ite ((ih.arguments (count + 1)).bind fun _ => .refl _) (.refl _)
    exact .ite (.after _ fun _ => hrest) hrest
  primary := by
    rw [Grammar.primary, Grammar.primary]
    refine .after _ fun o => ?_
    cases o with
    | some v => exact .refl _
    | none =>
      refine .after _ fun o => ?_
      cases o with
      | some name => exact .refl _
      | none => exact .after _ fun _ => .ite (ih.expression.bind fun _ => .refl _) (.refl _)

end MoreExpressionFuel

/-- More fuel does not change what is read as an expression. -/
theorem moreExpressionFuel (h : fuel ≤ fuel') : MoreExpressionFuel fuel fuel' := by
  induction fuel generalizing fuel' with
  | zero =>
    constructor <;> intros <;>
      simp only [expression, operation, operands, prefixed, calls, arguments, primary] <;>
      exact below_unfinished _
  | succ fuel ih =>
    obtain ⟨fuel', rfl⟩ : ∃ k, fuel' = k + 1 := ⟨fuel' - 1, by omega⟩
    exact (ih (Nat.le_of_succ_le_succ h)).succ

/-! ## Statements -/

theorem below_parameters (h : fuel ≤ fuel') (count : Nat) :
    Below (parameters fuel count) (parameters fuel' count) := by
  induction fuel generalizing fuel' count with
  | zero => exact below_unfinished _
  | succ fuel ih =>
    obtain ⟨fuel', rfl⟩ : ∃ k, fuel' = k + 1 := ⟨fuel' - 1, by omega⟩
    have ih := ih (Nat.le_of_succ_le_succ h) (count + 1)
    have hrest : Below (do
        let name ← expect .identifier .parameterName
        if ← accept .comma then return name :: (← parameters fuel (count + 1))
        else return [name]) (do
        let name ← expect .identifier .parameterName
        if ← accept .comma then return name :: (← parameters fuel' (count + 1))
        else return [name]) :=
      .after _ fun _ => .after _ fun _ => .ite (ih.bind fun _ => .refl _) (.refl _)
    rw [parameters, parameters]
    exact .ite (.after _ fun _ => hrest) hrest

section

variable (h : fuel ≤ fuel')

include h

theorem below_variableDeclaration :
    Below (variableDeclaration fuel) (variableDeclaration fuel') := by
  refine .after _ fun name => .after _ fun b => .ite ?_ (.refl _)
  exact (moreExpressionFuel h).expression.map.bind fun _ => .refl _

theorem below_expressionStatement :
    Below (expressionStatement fuel) (expressionStatement fuel') :=
  (moreExpressionFuel h).expression.bind fun _ => .refl _

theorem below_printStatement : Below (printStatement fuel) (printStatement fuel') :=
  (moreExpressionFuel h).expression.bind fun _ => .refl _

theorem below_returnStatement (keyword : Token) :
    Below (returnStatement fuel keyword) (returnStatement fuel' keyword) := by
  have hrest : Below (do
      let value ← unlessNext .semicolon (expression fuel)
      let _ ← expect .semicolon .semicolonAfterReturnValue
      return Node.returnStmt keyword value) (do
      let value ← unlessNext .semicolon (expression fuel')
      let _ ← expect .semicolon .semicolonAfterReturnValue
      return Node.returnStmt keyword value) :=
    (moreExpressionFuel h).expression.unlessNext.bind fun _ => .refl _
  exact .after _ fun _ => .ite (.after _ fun _ => hrest) hrest

theorem below_forInitializer : Below (forInitializer fuel) (forInitializer fuel') := by
  refine .after _ fun _ => .ite (.refl _) (.after _ fun _ => .ite ?_ ?_)
  · exact (below_variableDeclaration h).bind fun _ => .refl _
  · exact (below_expressionStatement h).bind fun _ => .refl _

end

/-- The rules for statements with less fuel are below those with more. -/
structure MoreStatementFuel (fuel fuel' : Nat) : Prop where
  declaration : Below (declaration fuel) (declaration fuel')
  functionDeclaration : Below (functionDeclaration fuel) (functionDeclaration fuel')
  statement : Below (statement fuel) (statement fuel')
  forStatement : Below (forStatement fuel) (forStatement fuel')
  ifStatement : Below (ifStatement fuel) (ifStatement fuel')
  whileStatement : Below (whileStatement fuel) (whileStatement fuel')
  blockBody : Below (blockBody fuel) (blockBody fuel')
  blockItems : Below (blockItems fuel) (blockItems fuel')

namespace MoreStatementFuel

theorem succ (ih : MoreStatementFuel fuel fuel') (h : fuel ≤ fuel') :
    MoreStatementFuel (fuel + 1) (fuel' + 1) where
  declaration := by
    rw [Grammar.declaration, Grammar.declaration]
    refine Below.recover (.after _ fun _ => .ite ih.functionDeclaration (.after _ fun _ => ?_))
    exact .ite (below_variableDeclaration h) ih.statement
  functionDeclaration := by
    rw [Grammar.functionDeclaration, Grammar.functionDeclaration]
    refine .after _ fun _ => .after _ fun _ => (below_parameters h 0).unlessNext.bind fun _ => ?_
    exact .after _ fun _ => .after _ fun _ => ih.blockBody.inFunction.bind fun _ => .refl _
  statement := by
    rw [Grammar.statement, Grammar.statement]
    refine .after _ fun _ => .ite ih.forStatement (.after _ fun _ => .ite ih.ifStatement
      (.after _ fun _ => .ite (below_printStatement h) (.after _ fun o => ?_)))
    cases o with
    | some keyword => exact below_returnStatement h keyword
    | none =>
      refine .after _ fun _ => .ite ih.whileStatement (.after _ fun _ => .ite ?_ ?_)
      · exact ih.blockBody.bind fun _ => .refl _
      · exact below_expressionStatement h
  forStatement := by
    rw [Grammar.forStatement, Grammar.forStatement]
    refine .after _ fun _ => (below_forInitializer h).bind fun _ => ?_
    refine (moreExpressionFuel h).expression.unlessNext.bind fun _ => .after _ fun _ => ?_
    refine (moreExpressionFuel h).expression.unlessNext.bind fun _ => .after _ fun _ => ?_
    exact ih.statement.bind fun _ => .refl _
  ifStatement := by
    rw [Grammar.ifStatement, Grammar.ifStatement]
    refine .after _ fun _ => (moreExpressionFuel h).expression.bind fun _ => .after _ fun _ => ?_
    refine ih.statement.bind fun _ => .after _ fun _ => .ite ?_ (.refl _)
    exact ih.statement.map.bind fun _ => .refl _
  whileStatement := by
    rw [Grammar.whileStatement, Grammar.whileStatement]
    refine .after _ fun _ => (moreExpressionFuel h).expression.bind fun _ => .after _ fun _ => ?_
    exact ih.statement.bind fun _ => .refl _
  blockBody := by
    rw [Grammar.blockBody, Grammar.blockBody]
    exact ih.blockItems.bind fun _ => .refl _
  blockItems := by
    rw [Grammar.blockItems, Grammar.blockItems]
    refine .after _ fun k => ?_
    split
    · exact .refl _
    · exact .refl _
    · exact ih.declaration.bind fun _ => ih.blockItems.bind fun _ => .refl _

end MoreStatementFuel

/-- More fuel does not change what is read as a statement or a declaration. -/
theorem moreStatementFuel (h : fuel ≤ fuel') : MoreStatementFuel fuel fuel' := by
  induction fuel generalizing fuel' with
  | zero =>
    constructor <;>
      simp only [declaration, functionDeclaration, statement, forStatement, ifStatement,
        whileStatement, blockBody, blockItems] <;>
      exact below_unfinished _
  | succ fuel ih =>
    obtain ⟨fuel', rfl⟩ : ∃ k, fuel' = k + 1 := ⟨fuel' - 1, by omega⟩
    have h := Nat.le_of_succ_le_succ h
    exact (ih h).succ h

/-- More fuel does not change what is read as a program. -/
theorem below_declarations (h : fuel ≤ fuel') :
    Below (declarations fuel) (declarations fuel') := by
  induction fuel generalizing fuel' with
  | zero => exact below_unfinished _
  | succ fuel ih =>
    obtain ⟨fuel', rfl⟩ : ∃ k, fuel' = k + 1 := ⟨fuel' - 1, by omega⟩
    have h := Nat.le_of_succ_le_succ h
    rw [declarations, declarations]
    refine .after _ fun k => ?_
    cases k with
    | none => exact .refl _
    | some k =>
      exact (moreStatementFuel h).declaration.bind fun _ => (ih h).bind fun _ => .refl _

end Lox.Grammar
