import Lox.Machine

/-!
# Evaluation

What expressions are worth and what statements do.

Every rule takes its fuel apart before it does anything, so a run with enough fuel never notices
it. The calls that may be nested in each other are counted apart from that, by calls of functions
only, so that a program can be told that its recursion has no end.

## Main definitions

* `evaluate b e`: the value of the expression `e`
* `execute b s`: the statement `s`
* `call b paren v args`: the call of the value `v`
* `interpret b ss`: the statements of a program, up to the first runtime error
-/

namespace Lox

open Eval

namespace Value

/-- The number of arguments of a value that can be called. -/
def arity? : Value → Option Nat
  | function f => some f.arity
  | native f => some f.arity
  | _ => none

end Value

/-- Calls a function of the host. -/
def callNative : Native → Eval Value
  | .clock => return .number (← readClock)
  | .silent .. => return .nil

/-- Whether the left side of `and` or `or` is the value of the whole. Any operator that is not `or`
counts as `and`. -/
def decides (operator : Token) (left : Value) : Bool :=
  if operator.kind = .orKw then left.isTruthy else !left.isTruthy

mutual

/-- The value of an expression. Operands are evaluated from left to right, before the operator is
looked at. -/
def evaluate : (fuel calls : Nat) → Node → Eval Value
  | 0, _, _ => unfinished
  | fuel + 1, calls, node =>
    match node with
    | .lit v => return v
    | .group e => evaluate fuel calls e
    | .unary operator right => do
      let v ← evaluate fuel calls right
      ofOperator operator (v.unary operator)
    | .binary left operator right => do
      let v ← evaluate fuel calls left
      let w ← evaluate fuel calls right
      ofOperator operator (v.binary operator w)
    | .logical left operator right => do
      let v ← evaluate fuel calls left
      if decides operator v then return v else evaluate fuel calls right
    | .ident name => lookup name
    | .assign name e => do
      let v ← evaluate fuel calls e
      assign name v
      return v
    | .call callee paren arguments => do
      let v ← evaluate fuel calls callee
      let ws ← evaluateAll fuel calls arguments
      call fuel calls paren v ws
    | node => fail (.fault (.unknownExpression node.form))

/-- The values of expressions, from left to right. -/
def evaluateAll : (fuel calls : Nat) → List Node → Eval (List Value)
  | 0, _, _ => unfinished
  | _ + 1, _, [] => return []
  | fuel + 1, calls, e :: es => do
    let v ← evaluate fuel calls e
    let vs ← evaluateAll fuel calls es
    return v :: vs

/-- Calls a value; errors are at the closing parenthesis. -/
def call : (fuel calls : Nat) → Token → Value → List Value → Eval Value
  | 0, _, _, _, _ => unfinished
  | fuel + 1, calls, paren, v, arguments =>
    match v.arity? with
    | none => raise .notCallable paren
    | some arity =>
      if arguments.length ≠ arity then raise (.arityMismatch arity arguments.length) paren
      else
        match v with
        | .function f => callFunction fuel calls f arguments
        | .native f => callNative f
        | _ => raise .notCallable paren

/-- Calls a function: its body runs in a scope of its own, inside the one it was declared in. -/
def callFunction : (fuel calls : Nat) → FunctionRef → List Value → Eval Value
  | 0, _, _, _ => unfinished
  | _ + 1, 0, _, _ => fail .tooDeep
  | fuel + 1, calls + 1, f, arguments => do
    let c ← closure f
    let scope ← newCallScope c arguments
    trace (.calling c.name.lexeme)
    match ← within scope (executeAll fuel calls c.body) with
    | .returned v => return v
    | .normal => return .nil

/-- Does what a statement says. -/
def execute : (fuel calls : Nat) → Node → Eval Completion
  | 0, _, _ => unfinished
  | fuel + 1, calls, node => do
    trace (.executing node.form)
    match node with
    | .exprStmt e =>
      let _ ← evaluate fuel calls e
      return .normal
    | .printStmt e =>
      let v ← evaluate fuel calls e
      let line ← ofExcept .fault v.display
      write (.printed line)
      return .normal
    | .varDecl name initializer =>
      let v ← match initializer with
        | some e => evaluate fuel calls e
        | none => pure .nil
      define name.lexeme v
      return .normal
    | .block statements =>
      let scope ← newBlockScope
      within scope (executeAll fuel calls statements)
    | .ifStmt condition thenBranch elseBranch =>
      let v ← evaluate fuel calls condition
      if v.isTruthy then execute fuel calls thenBranch
      else
        match elseBranch with
        | some s => execute fuel calls s
        | none => return .normal
    | .whileStmt condition body => loop fuel calls condition body
    | .funcDecl name params body =>
      let f ← newFunction name params body
      define name.lexeme (.function f)
      return .normal
    | .returnStmt _ value =>
      match value with
      | some e => return .returned (← evaluate fuel calls e)
      | none => return .returned .nil
    | node => fail (.fault (.unknownStatement node.form))

/-- Does what statements say, up to a `return`. -/
def executeAll : (fuel calls : Nat) → List Node → Eval Completion
  | 0, _, _ => unfinished
  | _ + 1, _, [] => return .normal
  | fuel + 1, calls, s :: ss => do
    match ← execute fuel calls s with
    | .returned v => return .returned v
    | .normal => executeAll fuel calls ss

/-- Does what the body of a loop says, as long as the condition is true and up to a `return`. -/
def loop : (fuel calls : Nat) → (condition body : Node) → Eval Completion
  | 0, _, _, _ => unfinished
  | fuel + 1, calls, condition, body => do
    let v ← evaluate fuel calls condition
    if v.isTruthy then
      match ← execute fuel calls body with
      | .returned v => return .returned v
      | .normal => loop fuel calls condition body
    else return .normal

end

/-! ## Programs -/

/-- Does what the statements of a program say; how they complete makes no difference. -/
def executeProgram (b : Budget) : List Node → Eval Unit
  | [] => return ()
  | s :: ss => do
    let _ ← execute b.fuel b.calls s
    executeProgram b ss

/-- A run that ends at its first runtime error, which is reported and becomes its result. -/
def reportRuntimeError (x : Eval Unit) : Eval (Option RuntimeError) :=
  fun config m =>
    match x config m with
    | .done () m => .done none m
    | .failed (.runtime error) m =>
      .done (some error) { m with log := .runtimeError error :: m.log }
    | .failed f m => .failed f m
    | .unfinished => .unfinished

/-- The statements of a program, up to the first runtime error. -/
def interpret (b : Budget) (program : List Node) : Eval (Option RuntimeError) :=
  reportRuntimeError (executeProgram b program)

end Lox
