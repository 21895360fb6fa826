import Lox.Number.Layout
import Lox.Text.Quoted

/-!
# Tokens

The words of the language: their kinds, the reserved words, and the tokens of a source with their
places.

## Main definitions

* `Kind`: the kinds of tokens
* `keywords`: the reserved words, in alphabetical order
* `Token`: a token with its line and its offset
* `TokenStream`: the tokens of a source and the token that ends it
* `Token.display t`: the token as a listing shows it
-/

namespace Lox

/-- The kinds of tokens. The names that end in `Kw` are those of the reserved words. -/
inductive Kind where
  | leftParen | rightParen | leftBrace | rightBrace | comma | dot | minus | plus | semicolon
  | slash | star
  | bang | bangEqual | equal | equalEqual | greater | greaterEqual | less | lessEqual
  | identifier | string | number
  | andKw | classKw | elseKw | falseKw | forKw | funcKw | ifKw | nilKw | orKw | printKw
  | returnKw | superKw | thisKw | trueKw | varKw | whileKw
  | eof
  deriving DecidableEq, Repr

namespace Kind

/-- The name of a kind in listings. -/
def name : Kind → String
  | leftParen => "LEFT_PAREN"
  | rightParen => "RIGHT_PAREN"
  | leftBrace => "LEFT_BRACE"
  | rightBrace => "RIGHT_BRACE"
  | comma => "COMMA"
  | dot => "DOT"
  | minus => "MINUS"
  | plus => "PLUS"
  | semicolon => "SEMICOLON"
  | slash => "SLASH"
  | star => "STAR"
  | bang => "BANG"
  | bangEqual => "BANG_EQUAL"
  | equal => "EQUAL"
  | equalEqual => "EQUAL_EQUAL"
  | greater => "GREATER"
  | greaterEqual => "GREATER_EQUAL"
  | less => "LESS"
  | lessEqual => "LESS_EQUAL"
  | identifier => "IDENTIFIER"
  | string => "STRING"
  | number => "NUMBER"
  | andKw => "AND"
  | classKw => "CLASS"
  | elseKw => "ELSE"
  | falseKw => "FALSE"
  | forKw => "FOR"
  | funcKw => "FUNC"
  | ifKw => "IF"
  | nilKw => "NIL"
  | orKw => "OR"
  | printKw => "PRINT"
  | returnKw => "RETURN"
  | superKw => "SUPER"
  | thisKw => "THIS"
  | trueKw => "TRUE"
  | varKw => "VAR"
  | whileKw => "WHILE"
  | eof => "EOF"

/-- All kinds. -/
def all : List Kind :=
  [leftParen, rightParen, leftBrace, rightBrace, comma, dot, minus, plus, semicolon, slash, star,
    bang, bangEqual, equal, equalEqual, greater, greaterEqual, less, lessEqual,
    identifier, string, number,
    andKw, classKw, elseKw, falseKw, forKw, funcKw, ifKw, nilKw, orKw, printKw,
    returnKw, superKw, thisKw, trueKw, varKw, whileKw, eof]

/-- The list of all kinds is complete. -/
theorem mem_all (k : Kind) : k ∈ all := by
  cases k <;> decide

/-- The kind of a given name. -/
def ofName? (name : String) : Option Kind :=
  all.find? (·.name == name)

end Kind

/-- The reserved words, in alphabetical order. -/
def keywords : List (String × Kind) :=
  [("and", .andKw), ("class", .classKw), ("else", .elseKw), ("false", .falseKw), ("for", .forKw),
    ("func", .funcKw), ("if", .ifKw), ("nil", .nilKw), ("or", .orKw), ("print", .printKw),
    ("return", .returnKw), ("super", .superKw), ("this", .thisKw), ("true", .trueKw),
    ("var", .varKw), ("while", .whileKw)]

/-- The value that a token stands for. -/
inductive Literal where
  | number (x : Float)
  | string (s : String)

/-- A literal as listings show it. -/
def Literal.display : Literal → String
  | .number x => Number.literalText x
  | .string s => Text.quoted s

/-- A token. Its line is the one on which it ends, and its offset the number of characters before
it. -/
structure Token where
  kind : Kind
  lexeme : String
  literal : Option Literal
  line : Nat
  offset : Nat

/-- A token as listings show it: the kind, the lexeme and, if there is one, the literal. -/
def Token.display (t : Token) : String :=
  let lexeme := t.kind.name ++ " " ++ Text.quoted t.lexeme
  match t.literal with
  | none => lexeme
  | some l => lexeme ++ " " ++ l.display

/-- The tokens of a source, and the token of kind `eof` that ends it. -/
structure TokenStream where
  tokens : List Token
  eof : Token

/-- All tokens, the last one included. -/
def TokenStream.toList (s : TokenStream) : List Token :=
  s.tokens ++ [s.eof]

end Lox
