import Lox.Grammar.Statement
import Lox.Token.Scan

/-!
# Programs

The trees of a source: those of the declarations that have no fatal error, and all errors; or the
tree of a source that is one expression.

## Main definitions

* `Parse`: the trees and the errors of a sequence of tokens
* `parse s`: the declarations of the tokens `s`
* `parseExpression s`: the expression that the tokens `s` are
* `SourceParse`, `parseSource source`: the declarations of a source, and the errors of both kinds
* `expressionOfScan s`, `parseSourceExpression source`: the expression that a source is
-/

namespace Lox.Grammar

/-- Fuel for the rules of the grammar: less than twenty of them are entered between two tokens. -/
def fuelFor (tokens : List Token) : Nat :=
  20 * (tokens.length + 1)

/-- The trees of the declarations of a program, and its errors in the order in which they were
found. -/
structure Parse where
  program : List Node
  errors : List SyntaxError

/-- A reader in front of tokens that no function is around. -/
def start (tokens : List Token) : Cursor :=
  ⟨tokens, 0, []⟩

/-- The declarations that the tokens are. -/
def parse (s : TokenStream) : Parse :=
  match declarations (fuelFor s.tokens) s.eof (start s.tokens) with
  | .done program c => ⟨program, c.errors.reverse⟩
  | .failed _ c => ⟨[], c.errors.reverse⟩
  | .unfinished => ⟨[], []⟩

/-- An expression and nothing after it. -/
def wholeExpression {m : Type → Type} [Monad m] [Steps m] (fuel : Nat) : m Node := do
  let e ← expression fuel
  match ← nextKind? with
  | none => return e
  | some _ => fail .endOfExpression

/-- The expression that the tokens are, or the fatal error in them. -/
def parseExpression (s : TokenStream) : Except SyntaxError Node :=
  match wholeExpression (fuelFor s.tokens) s.eof (start s.tokens) with
  | .done e _ => .ok e
  | .failed error _ => .error error
  | .unfinished => .error ⟨.expression, s.eof⟩

/-! ## From a source -/

/-- The declarations of a source, its scan and its syntax errors. -/
structure SourceParse where
  scan : Scan
  parse : Parse

/-- The declarations of a source. -/
def parseSource (source : String) : SourceParse :=
  let scan := Lox.scan source
  ⟨scan, Grammar.parse scan.stream⟩

namespace SourceParse

/-- The diagnostics of the tokens, in order. -/
def scanDiagnostics (p : SourceParse) : List Diagnostic :=
  p.scan.errors.map ScanError.diagnostic

/-- The diagnostics of the declarations, in order. -/
def parseDiagnostics (p : SourceParse) : List Diagnostic :=
  p.parse.errors.map SyntaxError.diagnostic

/-- All diagnostics; those of the tokens come first. -/
def diagnostics (p : SourceParse) : List Diagnostic :=
  p.scanDiagnostics ++ p.parseDiagnostics

end SourceParse

/-- Why a source is no expression. -/
inductive ExpressionError where
  | scan (error : ScanError)
  | parse (error : SyntaxError)

/-- The diagnostic for a source that is no expression. -/
def ExpressionError.diagnostic : ExpressionError → Diagnostic
  | scan error => error.diagnostic
  | parse error => error.diagnostic

/-- The expression that the tokens of a scan are. A scan error, of several the first, comes before
a syntax error. -/
def expressionOfScan (scan : Scan) : Except ExpressionError Node :=
  match scan.errors with
  | error :: _ => .error (.scan error)
  | [] => (parseExpression scan.stream).mapError .parse

/-- The expression that a source is. -/
def parseSourceExpression (source : String) : Except ExpressionError Node :=
  expressionOfScan (Lox.scan source)

end Lox.Grammar
