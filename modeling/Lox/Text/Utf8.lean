import Lox.Text.Lines

/-!
# Reading bytes as text

The strict reading of bytes as UTF-8. A sequence that is none is an error, placed at the longest
start of it that some character has.

## Main definitions

* `Utf8Fault`: what is wrong with a byte, and where
* `sequence? b`: what a first byte promises of the bytes after it
* `decode bytes`: the characters that the bytes stand for
* `readText bytes`: the text of a file with these bytes
-/

namespace Lox.Text

/-- What is wrong with a sequence of bytes. -/
inductive Utf8Reason where
  | startByte
  | continuationByte
  | endOfData
  deriving DecidableEq, Repr

/-- The wording of a reason. -/
def Utf8Reason.text : Utf8Reason → String
  | .startByte => "invalid start byte"
  | .continuationByte => "invalid continuation byte"
  | .endOfData => "unexpected end of data"

/-- A sequence of bytes that is no character: its first position, its bytes (at least one) and the
reason. -/
structure Utf8Fault where
  position : Nat
  first : UInt8
  length : Nat
  reason : Utf8Reason
  deriving DecidableEq, Repr

/-- The message for bytes that are no text. -/
def Utf8Fault.message (f : Utf8Fault) : String :=
  if f.length = 1 then
    s!"'utf-8' codec can't decode byte 0x{String.ofList (hexByte f.first)} in position "
      ++ s!"{f.position}: {f.reason.text}"
  else
    s!"'utf-8' codec can't decode bytes in position {f.position}-{f.position + f.length - 1}: "
      ++ f.reason.text
where
  /-- The byte in two hexadecimal digits. -/
  hexByte (b : UInt8) : List Char :=
    [Nat.digitChar (b.toNat / 16), Nat.digitChar (b.toNat % 16)]

/-- The continuation of a character: the number of bytes that follow the first one, the range that
the second byte has to lie in, and the bits of the first byte that belong to the code point. -/
structure Continuation where
  count : Nat
  least : Nat
  greatest : Nat
  bits : Nat

/-- What a byte promises as the first one of a character; no byte of an overlong form, of a
surrogate or of a code above the last one is admitted. -/
def continuation? (b : UInt8) : Option Continuation :=
  let n := b.toNat
  if n < 0x80 then some ⟨0, 0, 0, n⟩
  else if n < 0xC2 then none
  else if n < 0xE0 then some ⟨1, 0x80, 0xBF, n - 0xC0⟩
  else if n = 0xE0 then some ⟨2, 0xA0, 0xBF, 0⟩
  else if n = 0xED then some ⟨2, 0x80, 0x9F, 0xD⟩
  else if n < 0xF0 then some ⟨2, 0x80, 0xBF, n - 0xE0⟩
  else if n = 0xF0 then some ⟨3, 0x90, 0xBF, 0⟩
  else if n < 0xF4 then some ⟨3, 0x80, 0xBF, n - 0xF0⟩
  else if n = 0xF4 then some ⟨3, 0x80, 0x8F, 4⟩
  else none

/-- Reads `count` further bytes of a character whose bits so far are `bits`. The next byte lies
between `least` and `greatest`, and the ones after it are any continuation bytes. A failure counts
the bytes that were read. -/
def continueCharacter : (count least greatest bits read : Nat) → List UInt8 →
    Except (Nat × Utf8Reason) (Nat × List UInt8)
  | 0, _, _, bits, _, rest => .ok (bits, rest)
  | _ + 1, _, _, _, read, [] => .error (read, .endOfData)
  | count + 1, least, greatest, bits, read, b :: rest =>
    if least ≤ b.toNat ∧ b.toNat ≤ greatest then
      continueCharacter count 0x80 0xBF (bits * 64 + (b.toNat - 0x80)) (read + 1) rest
    else .error (read, .continuationByte)

/-- Reads one character after another; `fuel` is at least the number of bytes. -/
def decodeFrom : (fuel position : Nat) → List UInt8 → List Char → Except Utf8Fault (List Char)
  | 0, _, _, done => .ok done.reverse
  | _ + 1, _, [], done => .ok done.reverse
  | fuel + 1, position, b :: rest, done =>
    match continuation? b with
    | none => .error ⟨position, b, 1, .startByte⟩
    | some c =>
      match continueCharacter c.count c.least c.greatest c.bits 1 rest with
      | .error (read, reason) => .error ⟨position, b, read, reason⟩
      | .ok (code, rest) => decodeFrom fuel (position + c.count + 1) rest (Char.ofNat code :: done)

/-- The characters that the bytes stand for. -/
def decode (bytes : List UInt8) : Except Utf8Fault (List Char) :=
  decodeFrom bytes.length 0 bytes []

/-- The text of a file with these bytes: every line end counts as a newline. -/
def readText (bytes : List UInt8) : Except Utf8Fault String :=
  (decode bytes).map fun cs => String.ofList (unifyNewlines cs)

end Lox.Text
