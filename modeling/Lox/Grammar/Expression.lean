import Lox.Grammar.Basic
import Lox.Node.Basic

/-!
# Expressions

The rules of the grammar for expressions. The binary operators have six levels of precedence, and
those of one level associate to the left. Assignment binds loosest and associates to the right.

The rules call each other with less and less fuel; each call either reads a token or goes down in
precedence, so a bounded amount for each token is enough.

## Main definitions

* `Level`: a level of precedence
* `levels`: the levels, from the loosest to the tightest
* `expression fuel`: the rule for an expression
-/

namespace Lox.Grammar

/-- The levels of precedence of the binary operators. -/
inductive Level where
  | disjunction | conjunction | equality | comparison | term | factor
  deriving DecidableEq, Repr

namespace Level

/-- Whether the operators of this kind belong to the level. -/
def holds : Level → Kind → Bool
  | disjunction, .orKw => true
  | conjunction, .andKw => true
  | equality, .bangEqual | equality, .equalEqual => true
  | comparison, .greater | comparison, .greaterEqual => true
  | comparison, .less | comparison, .lessEqual => true
  | term, .minus | term, .plus => true
  | factor, .slash | factor, .star => true
  | _, _ => false

/-- The node of an operator of the level. -/
def node (level : Level) (left : Node) (operator : Token) (right : Node) : Node :=
  match level with
  | disjunction | conjunction => .logical left operator right
  | _ => .binary left operator right

end Level

/-- The levels of precedence, from the loosest to the tightest. -/
def levels : List Level :=
  [.disjunction, .conjunction, .equality, .comparison, .term, .factor]

/-- The kinds of the unary operators. -/
def isUnaryOperator : Kind → Bool
  | .bang | .minus => true
  | _ => false

/-- The value of the literal of a token. -/
def literalValue : Option Literal → Value
  | some (.number x) => .number x
  | some (.string s) => .string s
  | none => .nil

/-- The literal that a token is. -/
def literal? (t : Token) : Option Value :=
  match t.kind with
  | .falseKw => some (.bool false)
  | .trueKw => some (.bool true)
  | .nilKw => some .nil
  | .number | .string => some (literalValue t.literal)
  | _ => none

variable {m : Type → Type} [Monad m] [Steps m]

/-- A literal, if the next token is one. -/
def acceptLiteral? : m (Option Value) := do
  match ← acceptIf? fun k => k matches .falseKw | .trueKw | .nilKw | .number | .string with
  | some t => return literal? t
  | none => return none

mutual

/-- An expression: an assignment, or an operation of the loosest level. An assignment to anything
but a variable is recorded as an error, and its right side stands for it. -/
def expression : (fuel : Nat) → m Node
  | 0 => unfinished
  | fuel + 1 => do
    let left ← operation fuel levels
    match ← accept? .equal with
    | none => return left
    | some equals =>
      let value ← expression fuel
      match left with
      | .ident name => return .assign name value
      | _ =>
        recordAt .invalidTarget equals
        return value

/-- An operation of the first of the levels, or of a tighter one. -/
def operation : (fuel : Nat) → List Level → m Node
  | 0, _ => unfinished
  | fuel + 1, [] => prefixed fuel
  | fuel + 1, level :: tighter => do
    let left ← operation fuel tighter
    operands fuel level tighter left

/-- The operators of the level that follow an operand, each with its right operand. -/
def operands : (fuel : Nat) → Level → List Level → Node → m Node
  | 0, _, _, _ => unfinished
  | fuel + 1, level, tighter, left => do
    match ← acceptIf? level.holds with
    | none => return left
    | some operator =>
      let right ← operation fuel tighter
      operands fuel level tighter (level.node left operator right)

/-- A call, with any number of unary operators in front. -/
def prefixed : (fuel : Nat) → m Node
  | 0 => unfinished
  | fuel + 1 => do
    match ← acceptIf? isUnaryOperator with
    | some operator => return .unary operator (← prefixed fuel)
    | none =>
      let callee ← primary fuel
      calls fuel callee

/-- The argument lists that follow a callee. -/
def calls : (fuel : Nat) → Node → m Node
  | 0, _ => unfinished
  | fuel + 1, callee => do
    if ← accept .leftParen then
      let args := (← unlessNext .rightParen (arguments fuel 0)).getD []
      let paren ← expect .rightParen .parenAfterArguments
      calls fuel (.call callee paren args)
    else return callee

/-- One or more arguments, after the given number of them. One too many is recorded as an error. -/
def arguments : (fuel : Nat) → (count : Nat) → m (List Node)
  | 0, _ => unfinished
  | fuel + 1, count => do
    if maxArguments ≤ count then record .tooManyArguments
    let argument ← expression fuel
    if ← accept .comma then return argument :: (← arguments fuel (count + 1))
    else return [argument]

/-- A literal, a variable, or an expression in parentheses. -/
def primary : (fuel : Nat) → m Node
  | 0 => unfinished
  | fuel + 1 => do
    if let some v ← acceptLiteral? then return .lit v
    if let some name ← accept? .identifier then return .ident name
    if ← accept .leftParen then
      let inner ← expression fuel
      let _ ← expect .rightParen .parenAfterExpression
      return .group inner
    fail .expression

end

end Lox.Grammar
