import Lox.Text.Printable

/-!
# Quoted texts

A text as it is shown inside a message: between quotes, with the unprintable characters, the
backslash and the quote escaped. The quote is the apostrophe, unless the text holds an apostrophe
and no double quote.

## Main definitions

* `hex width n`: `n` in lower-case hexadecimal, padded with zeros to `width`
* `escape quote c`: the character `c` inside a text between two `quote`s
* `quoted s`: the text `s` between quotes
-/

namespace Lox.Text

/-- The number in lower-case hexadecimal, padded with zeros on the left to the width. -/
def hex (width n : Nat) : List Char :=
  let digits := Nat.toDigits 16 n
  List.replicate (width - digits.length) '0' ++ digits

/-- The quote around a text: the apostrophe, unless it occurs and the double quote does not. -/
def quoteFor (cs : List Char) : Char :=
  if cs.contains '\'' && !cs.contains '"' then '"' else '\''

/-- One character of a quoted text. An unprintable one is written by its code, in the shortest of
the three widths that holds it. -/
def escape (quote c : Char) : List Char :=
  if c = quote ∨ c = '\\' then ['\\', c]
  else if c = '\n' then ['\\', 'n']
  else if c = '\r' then ['\\', 'r']
  else if c = '\t' then ['\\', 't']
  else if isPrintable c then [c]
  else if c.toNat < 0x100 then '\\' :: 'x' :: hex 2 c.toNat
  else if c.toNat < 0x10000 then '\\' :: 'u' :: hex 4 c.toNat
  else '\\' :: 'U' :: hex 8 c.toNat

/-- The text between quotes. -/
def quoted (s : String) : String :=
  let cs := s.toList
  let quote := quoteFor cs
  String.ofList (quote :: (cs.flatMap (escape quote) ++ [quote]))

end Lox.Text
