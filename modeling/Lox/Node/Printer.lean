import Lox.Node.Basic

/-!
# Printed trees

The parenthesized form of a syntax tree, the head of each node in front.

## Main definitions

* `Node.print n`: the printed form of `n`
-/

namespace Lox.Node

/-- A head and its parts, between parentheses and separated by spaces. -/
def parenthesize (head : String) (parts : List String) : String :=
  "(" ++ " ".intercalate (head :: parts) ++ ")"

mutual

/-- The printed form of a node. A literal is printed as its value is displayed. -/
def print : Node → Except Fault String
  | lit v => v.display
  | group e => return parenthesize "group" [← e.print]
  | unary op e => return parenthesize op.lexeme [← e.print]
  | binary l op r => return parenthesize op.lexeme [← l.print, ← r.print]
  | logical l op r => return parenthesize op.lexeme [← l.print, ← r.print]
  | ident name => return name.lexeme
  | assign name e => return parenthesize "=" [name.lexeme, ← e.print]
  | call callee _ args => return parenthesize "call" ((← callee.print) :: (← printAll args))
  | exprStmt e => return parenthesize ";" [← e.print]
  | printStmt e => return parenthesize "print" [← e.print]
  | varDecl name none => return parenthesize "var" [name.lexeme]
  | varDecl name (some e) => return parenthesize "var" [name.lexeme, "=", ← e.print]
  | block ss => return parenthesize "block" (← printAll ss)
  | ifStmt c t none => return parenthesize "if" [← c.print, ← t.print]
  | ifStmt c t (some e) => return parenthesize "if-else" [← c.print, ← t.print, ← e.print]
  | whileStmt c b => return parenthesize "while" [← c.print, ← b.print]
  | funcDecl name params body => do
    let params := "(" ++ " ".intercalate (params.map Token.lexeme) ++ ")"
    return parenthesize "func" (name.lexeme :: params :: (← printAll body))
  | returnStmt _ none => return "(return)"
  | returnStmt _ (some e) => return parenthesize "return" [← e.print]
  | stray form => .error (.unknownNode form)

/-- The printed forms of nodes, in order. -/
def printAll : List Node → Except Fault (List String)
  | [] => return []
  | n :: ns => return (← n.print) :: (← printAll ns)

end

end Lox.Node
