import Lox.Text.Lines
import Lox.Text.Locator

/-!
# Places

The locator that looks for newlines on both sides of an offset. The program is run with this one;
what is said of source context does not depend on it.

## Main definitions

* `lineNumber cs offset`, `column cs offset`, `lineAround cs offset`: the number, the column and the
  text of the line at an offset
-/

namespace Lox.Text

/-- The number of the line that holds the character at the offset. -/
def lineNumber (cs : List Char) (offset : Nat) : Nat :=
  newlines (cs.take offset) + 1

/-- The part of the line that lies before the offset. -/
def lineBefore (cs : List Char) (offset : Nat) : List Char :=
  ((cs.take offset).reverse.takeWhile (· ≠ '\n')).reverse

/-- The part of the line that starts at the offset. -/
def lineFrom (cs : List Char) (offset : Nat) : List Char :=
  (cs.drop offset).takeWhile (· ≠ '\n')

/-- The column of the character at the offset, the first one being column one. -/
def column (cs : List Char) (offset : Nat) : Nat :=
  (lineBefore cs offset).length + 1

/-- The line that holds the character at the offset. -/
def lineAround (cs : List Char) (offset : Nat) : List Char :=
  lineBefore cs offset ++ lineFrom cs offset

instance : Locator where
  lineNumber := lineNumber
  column := column
  line := lineAround

end Lox.Text
