import Lox.Token.Basic
import Lox.Value.Basic

/-!
# Operators

What the operators do with values, and the runtime errors.

## Main definitions

* `RuntimeError`: a runtime error, at the token that caused it
* `BinaryOperator.apply op v w`: `v op w` for the operators that not all values have
* `Value.binary token v w`, `Value.unary token v`: the operator of a token, applied to values
-/

namespace Lox

/-- The causes of runtime errors. -/
inductive RuntimeCause where
  | undefinedVariable (name : String)
  | operandNotNumber
  | operandsNotNumbers
  | operandsNotAddable
  | arityMismatch (expected got : Nat)
  | notCallable
  deriving DecidableEq, Repr

/-- The wording of a cause. -/
def RuntimeCause.message : RuntimeCause → String
  | undefinedVariable name => s!"Undefined variable '{name}'."
  | operandNotNumber => "Operand must be a number."
  | operandsNotNumbers => "Operand(s) must be a number."
  | operandsNotAddable => "Operands must be two numbers or two strings."
  | arityMismatch expected got => s!"Expected {expected} arguments but got {got}."
  | notCallable => "Can only call functions and classes."

/-- A runtime error at a token. -/
structure RuntimeError where
  cause : RuntimeCause
  token : Token

/-- The message of a runtime error. -/
def RuntimeError.message (e : RuntimeError) : String :=
  e.cause.message

/-- The message and the line of a runtime error. -/
def RuntimeError.text (e : RuntimeError) : String :=
  e.message ++ "\n[line: " ++ toString e.token.line ++ "]"

/-! ## Binary operators -/

/-- The binary operators that not all values have. -/
inductive BinaryOperator where
  | add | subtract | multiply | divide | greater | greaterEqual | less | lessEqual
  deriving DecidableEq, Repr

namespace BinaryOperator

/-- The operator that a token of this kind writes. -/
def ofKind? : Kind → Option BinaryOperator
  | .plus => some add
  | .minus => some subtract
  | .star => some multiply
  | .slash => some divide
  | .greater => some greater
  | .greaterEqual => some greaterEqual
  | .less => some less
  | .lessEqual => some lessEqual
  | _ => none

/-- The operator on numbers, as IEEE 754 says; a division by zero is an infinity or not a number. -/
def onNumbers (x y : Float) : BinaryOperator → Value
  | add => .number (x + y)
  | subtract => .number (x - y)
  | multiply => .number (x * y)
  | divide => .number (x / y)
  | greater => .bool (x > y)
  | greaterEqual => .bool (x ≥ y)
  | less => .bool (x < y)
  | lessEqual => .bool (x ≤ y)

/-- All operators take two numbers; addition also joins two strings. -/
def apply : BinaryOperator → Value → Value → Except RuntimeCause Value
  | op, .number x, .number y => .ok (op.onNumbers x y)
  | add, .string s, .string t => .ok (.string (s ++ t))
  | add, _, _ => .error .operandsNotAddable
  | _, _, _ => .error .operandsNotNumbers

end BinaryOperator

/-! ## The operators of tokens -/

/-- A failure of an operator: of its operands, or of the operator itself. -/
inductive OperatorError where
  | operands (cause : RuntimeCause)
  | unknown (fault : Fault)

namespace Value

/-- Minus on a number. -/
def negate : Value → Except RuntimeCause Value
  | number x => .ok (number (-x))
  | _ => .error .operandNotNumber

/-- The unary operator that the token writes. -/
def unary (operator : Token) (v : Value) : Except OperatorError Value :=
  match operator.kind with
  | .bang => .ok (bool !v.isTruthy)
  | .minus => v.negate.mapError .operands
  | _ => .error (.unknown (.unknownUnary operator.lexeme))

/-- The binary operator that the token writes. -/
def binary (operator : Token) (v w : Value) : Except OperatorError Value :=
  match operator.kind with
  | .equalEqual => .ok (bool (v.isEqual w))
  | .bangEqual => .ok (bool !(v.isEqual w))
  | kind =>
    match BinaryOperator.ofKind? kind with
    | some op => (op.apply v w).mapError .operands
    | none => .error (.unknown (.unknownBinary operator.lexeme))

end Value

end Lox
