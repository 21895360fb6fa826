import Lox.Token.Basic
import Lox.Value.Basic

/-!
# Syntax trees

The trees that programs are. Expressions and statements are nodes of one type: a tree may hold a
node of either sort in any place, and what has no meaning there is found when it is run or printed.

## Main definitions

* `Node`: the nodes
* `Node.form n`: the name of the form of a node
* `Node.forLoop`: the `for` loop, in terms of blocks and `while`
-/

namespace Lox

/-- A node of a syntax tree. -/
inductive Node where
  -- expressions
  | lit (value : Value)
  | group (inner : Node)
  | unary (operator : Token) (right : Node)
  | binary (left : Node) (operator : Token) (right : Node)
  /-- `and` and `or`, whose right side is not always evaluated -/
  | logical (left : Node) (operator : Token) (right : Node)
  | ident (name : Token)
  | assign (name : Token) (value : Node)
  /-- a call, with its closing parenthesis -/
  | call (callee : Node) (paren : Token) (arguments : List Node)
  -- statements
  | exprStmt (expression : Node)
  | printStmt (expression : Node)
  | varDecl (name : Token) (initializer : Option Node)
  | block (statements : List Node)
  | ifStmt (condition thenBranch : Node) (elseBranch : Option Node)
  | whileStmt (condition body : Node)
  | funcDecl (name : Token) (params : List Token) (body : List Node)
  | returnStmt (keyword : Token) (value : Option Node)
  /-- something that is no node, in the place of one -/
  | stray (form : String)

namespace Node

/-- The name of the form of a node, in traces and faults. -/
def form : Node → String
  | lit .. => "Literal"
  | group .. => "Grouping"
  | unary .. => "Unary"
  | binary .. => "Binary"
  | logical .. => "Logical"
  | ident .. => "Variable"
  | assign .. => "Assign"
  | call .. => "Call"
  | exprStmt .. => "Expression"
  | printStmt .. => "Print"
  | varDecl .. => "Var"
  | block .. => "Block"
  | ifStmt .. => "If"
  | whileStmt .. => "While"
  | funcDecl .. => "Function"
  | returnStmt .. => "Return"
  | stray form => form

/-- The `for` loop: its initializer runs once in a scope around the loop, a missing condition is
true, and the increment follows the body in a block. -/
def forLoop (initializer condition increment : Option Node) (body : Node) : Node :=
  let body := match increment with
    | some e => block [body, exprStmt e]
    | none => body
  let loop := whileStmt (condition.getD (lit (.bool true))) body
  match initializer with
  | some s => block [s, loop]
  | none => loop

end Node

end Lox
