import Lox.Text.Blank
import Lox.Text.Digit

/-!
# Integer texts

The texts that stand for an integer where a user writes one: decimal digits of any script, single
underscores between them, a sign in front, and blanks around.

## Main definitions

* `integer? s`: the integer that the text `s` stands for
-/

namespace Lox.Text

/-- The blanks around an integer: all but the information separators. -/
def isIntegerBlank (c : Char) : Bool :=
  isBlank c && !(0x1C ≤ c.toNat && c.toNat ≤ 0x1F)

/-- The greatest number of digits of an integer. -/
def maxIntegerDigits : Nat := 4300

/-- The digits of an unsigned integer: digits with single underscores between them. -/
def digits? : List Char → Option (List Nat)
  | [] => none
  | [c] => return [← digitValue? c]
  | c :: '_' :: cs => return (← digitValue? c) :: (← digits? cs)
  | c :: cs => return (← digitValue? c) :: (← digits? cs)

/-- The value of an unsigned integer. -/
def natural? (cs : List Char) : Option Nat := do
  let ds ← digits? cs
  if ds.length ≤ maxIntegerDigits then return ds.foldl (fun n d => n * 10 + d) 0 else none

/-- The integer that a text stands for. -/
def integer? (s : String) : Option Int :=
  let cs := ((s.toList.dropWhile isIntegerBlank).reverse.dropWhile isIntegerBlank).reverse
  match cs with
  | '+' :: cs => (natural? cs).map Int.ofNat
  | '-' :: cs => (natural? cs).map fun n => -Int.ofNat n
  | cs => (natural? cs).map Int.ofNat

end Lox.Text
