/-!
# Faults

The faults of an interpretation that no source text leads to: values and trees that only a host can
make.

## Main definitions

* `Fault`: the faults
* `Fault.message f`: the wording of a fault
-/

namespace Lox

/-- A fault of a tree or a value that the language has not. -/
inductive Fault where
  /-- an integer of the host in the place of a value -/
  | notAValue (n : Int)
  | unknownUnary (lexeme : String)
  | unknownBinary (lexeme : String)
  /-- a node of this form in the place of a statement -/
  | unknownStatement (form : String)
  /-- a node of this form in the place of an expression -/
  | unknownExpression (form : String)
  /-- something of this form in the place of a node -/
  | unknownNode (form : String)
  /-- a function that was never declared -/
  | undeclaredFunction (id : Nat)
  deriving DecidableEq, Repr

/-- The wording of a fault. -/
def Fault.message : Fault → String
  | notAValue n => s!"Not a Lox value: {n}"
  | unknownUnary lexeme => "Unknown unary operator: " ++ lexeme
  | unknownBinary lexeme => "Unknown binary operator: " ++ lexeme
  | unknownStatement form => "Unknown statement node: " ++ form
  | unknownExpression form => "Unknown expression node: " ++ form
  | unknownNode form => "Unknown syntax node: " ++ form
  | undeclaredFunction id => s!"Undeclared function: {id}"

end Lox
