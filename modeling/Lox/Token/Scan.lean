import Lox.Diagnostic.Basic
import Lox.Text.Lines
import Lox.Token.Piece

/-!
# Scanning

The tokens of a source and the errors in it, each with its place.

## Main definitions

* `Counters`: the line that a scan has come to, and how much it has read
* `Counters.after s p`: the counters when a piece has been read
* `Placed`: a piece with its line and its offset
* `place s ps`: the pieces `ps` at their places, and the counters at their end
* `ScanError`: a piece that is no token and no layout
* `scan cs`: the tokens of a source and its scan errors
-/

namespace Lox

/-- The line that a scan has come to, and the number of characters that it has read. -/
structure Counters where
  line : Nat
  current : Nat

namespace Counters

/-- The counters in front of a source. -/
def start : Counters :=
  ⟨1, 0⟩

/-- The counters when a piece has been read. Lines are counted at a newline and inside of strings,
and nowhere else. -/
def after (s : Counters) : Piece → Counters
  | .blank _ | .unexpected _ => { s with current := s.current + 1 }
  | .newline => ⟨s.line + 1, s.current + 1⟩
  | .comment body => { s with current := s.current + 2 + body.length }
  | .symbol kind => { s with current := s.current + kind.symbolText.length }
  | .word cs => { s with current := s.current + cs.length }
  | .number whole [] => { s with current := s.current + whole.length }
  | .number whole fraction => { s with current := s.current + whole.length + 1 + fraction.length }
  | .string body => ⟨s.line + Text.newlines body, s.current + 1 + body.length + 1⟩
  | .unterminated body => ⟨s.line + Text.newlines body, s.current + 1 + body.length⟩

end Counters

/-- A piece with the line to which the scan has come when it has read the piece, and the number of
characters that it had read before. -/
structure Placed where
  piece : Piece
  line : Nat
  offset : Nat

/-- The pieces at their places, and the counters at their end. -/
def place : Counters → List Piece → List Placed × Counters
  | s, [] => ([], s)
  | s, p :: ps =>
    let last := s.after p
    let (placed, final) := place last ps
    (⟨p, last.line, s.current⟩ :: placed, final)

/-- What is wrong with a source before its tokens are looked at. -/
inductive ScanFault where
  | unexpectedCharacter (c : Char)
  | unterminatedString

/-- A fault in a source, with the line and the offset that it is reported at. -/
structure ScanError where
  fault : ScanFault
  line : Nat
  offset : Nat

/-- The message for a scan fault. -/
def ScanFault.message : ScanFault → String
  | .unexpectedCharacter c => "Unexpected character '" ++ String.singleton c ++ "'."
  | .unterminatedString => "Unterminated string."

/-- The diagnostic for a scan error, which names no location in its line. -/
def ScanError.diagnostic (e : ScanError) : Diagnostic where
  line := e.line
  location := ""
  message := e.fault.message
  offset := some e.offset

namespace Placed

/-- The token that a placed piece is. -/
def token? (p : Placed) : Option Token :=
  p.piece.token?.map fun (kind, literal) =>
    ⟨kind, String.ofList p.piece.text, literal, p.line, p.offset⟩

/-- The error that a placed piece is. -/
def error? (p : Placed) : Option ScanError :=
  match p.piece with
  | .unexpected c => some ⟨.unexpectedCharacter c, p.line, p.offset⟩
  | .unterminated _ => some ⟨.unterminatedString, p.line, p.offset⟩
  | _ => none

end Placed

/-- The tokens of a source and its scan errors, both in order. -/
structure Scan where
  stream : TokenStream
  errors : List ScanError

/-- The token that ends a source, where the scan has come to. -/
def Counters.endToken (s : Counters) : Token :=
  ⟨.eof, "", none, s.line, s.current⟩

/-- The scan of the characters of a source. -/
def scanChars (cs : List Char) : Scan :=
  let (placed, final) := place .start (pieces cs)
  ⟨⟨placed.filterMap Placed.token?, final.endToken⟩, placed.filterMap Placed.error?⟩

/-- The scan of a source. -/
def scan (source : String) : Scan :=
  scanChars source.toList

end Lox
