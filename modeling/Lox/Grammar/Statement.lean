import Lox.Grammar.Expression

/-!
# Statements

The rules of the grammar for declarations and statements. A fatal error in a declaration ends that
declaration only.

## Main definitions

* `declaration fuel`: the rule for a declaration or a statement
* `statement fuel`: the rule for a statement
-/

namespace Lox.Grammar

variable {m : Type → Type} [Monad m] [Steps m]

/-- The names of one or more parameters, after the given number of them. One too many is recorded
as an error. -/
def parameters : (fuel : Nat) → (count : Nat) → m (List Token)
  | 0, _ => unfinished
  | fuel + 1, count => do
    if maxArguments ≤ count then record .tooManyParameters
    let name ← expect .identifier .parameterName
    if ← accept .comma then return name :: (← parameters fuel (count + 1)) else return [name]

/-- The declaration of a variable, after `var`. -/
def variableDeclaration (fuel : Nat) : m Node := do
  let name ← expect .identifier .variableName
  let initializer ← if ← accept .equal then (do return some (← expression fuel)) else pure none
  let _ ← expect .semicolon .semicolonAfterVariable
  return .varDecl name initializer

/-- An expression as a statement. -/
def expressionStatement (fuel : Nat) : m Node := do
  let e ← expression fuel
  let _ ← expect .semicolon .semicolonAfterExpression
  return .exprStmt e

/-- A `print` statement, after `print`. -/
def printStatement (fuel : Nat) : m Node := do
  let e ← expression fuel
  let _ ← expect .semicolon .semicolonAfterValue
  return .printStmt e

/-- A `return` statement, after `return`. Outside of all functions it is recorded as an error. -/
def returnStatement (fuel : Nat) (keyword : Token) : m Node := do
  if (← functionDepth) = 0 then recordAt .topLevelReturn keyword
  let value ← unlessNext .semicolon (expression fuel)
  let _ ← expect .semicolon .semicolonAfterReturnValue
  return .returnStmt keyword value

/-- The first clause of a `for` loop, with its semicolon. -/
def forInitializer (fuel : Nat) : m (Option Node) := do
  if ← accept .semicolon then return none
  if ← accept .varKw then return some (← variableDeclaration fuel)
  return some (← expressionStatement fuel)

mutual

/-- A declaration or a statement; nothing, if it has a fatal error. -/
def declaration : (fuel : Nat) → m (Option Node)
  | 0 => unfinished
  | fuel + 1 => recover do
    if ← accept .funcKw then functionDeclaration fuel
    else if ← accept .varKw then variableDeclaration fuel
    else statement fuel

/-- The declaration of a function, after `func`. -/
def functionDeclaration : (fuel : Nat) → m Node
  | 0 => unfinished
  | fuel + 1 => do
    let name ← expect .identifier .functionName
    let _ ← expect .leftParen .parenAfterFunctionName
    let params := (← unlessNext .rightParen (parameters fuel 0)).getD []
    let _ ← expect .rightParen .parenAfterParameters
    let _ ← expect .leftBrace .braceBeforeBody
    let body ← inFunction (blockBody fuel)
    return .funcDecl name params body

/-- A statement. -/
def statement : (fuel : Nat) → m Node
  | 0 => unfinished
  | fuel + 1 => do
    if ← accept .forKw then forStatement fuel
    else if ← accept .ifKw then ifStatement fuel
    else if ← accept .printKw then printStatement fuel
    else if let some keyword ← accept? .returnKw then returnStatement fuel keyword
    else if ← accept .whileKw then whileStatement fuel
    else if ← accept .leftBrace then return .block (← blockBody fuel)
    else expressionStatement fuel

/-- A `for` loop, after `for`. -/
def forStatement : (fuel : Nat) → m Node
  | 0 => unfinished
  | fuel + 1 => do
    let _ ← expect .leftParen .parenAfterFor
    let initializer ← forInitializer fuel
    let condition ← unlessNext .semicolon (expression fuel)
    let _ ← expect .semicolon .semicolonAfterLoopCondition
    let increment ← unlessNext .rightParen (expression fuel)
    let _ ← expect .rightParen .parenAfterForClauses
    let body ← statement fuel
    return .forLoop initializer condition increment body

/-- An `if` statement, after `if`. An `else` belongs to the nearest one. -/
def ifStatement : (fuel : Nat) → m Node
  | 0 => unfinished
  | fuel + 1 => do
    let _ ← expect .leftParen .parenAfterIf
    let condition ← expression fuel
    let _ ← expect .rightParen .parenAfterIfCondition
    let thenBranch ← statement fuel
    let elseBranch ← if ← accept .elseKw then (do return some (← statement fuel)) else pure none
    return .ifStmt condition thenBranch elseBranch

/-- A `while` loop, after `while`. -/
def whileStatement : (fuel : Nat) → m Node
  | 0 => unfinished
  | fuel + 1 => do
    let _ ← expect .leftParen .parenAfterWhile
    let condition ← expression fuel
    let _ ← expect .rightParen .parenAfterCondition
    return .whileStmt condition (← statement fuel)

/-- The declarations of a block up to its closing brace, after the opening one. -/
def blockBody : (fuel : Nat) → m (List Node)
  | 0 => unfinished
  | fuel + 1 => do
    let statements ← blockItems fuel
    let _ ← expect .rightBrace .braceAfterBlock
    return statements

/-- Declarations up to a closing brace or the end of the source. -/
def blockItems : (fuel : Nat) → m (List Node)
  | 0 => unfinished
  | fuel + 1 => do
    match ← nextKind? with
    | none | some .rightBrace => return []
    | some _ =>
      let item ← declaration fuel
      return item.toList ++ (← blockItems fuel)

end

/-- Declarations up to the end of the source. -/
def declarations : (fuel : Nat) → m (List Node)
  | 0 => unfinished
  | fuel + 1 => do
    match ← nextKind? with
    | none => return []
    | some _ =>
      let item ← declaration fuel
      return item.toList ++ (← declarations fuel)

end Lox.Grammar
