/-!
# Locators

A locator says on which line of a text an offset lies, in which column, and what the text of that
line is. Source context is made with a locator that comes from outside; what is relied on is what
its documentation says.

## Main definitions

* `Locator`: the three functions
* `LineAt cs offset before line after`: the line of an offset, with what stands around it
* `LawfulLocator`: newlines separate lines, and the first line and the first column have the number
  one
-/

namespace Lox.Text

/-- The functions that find the line of an offset in a text. -/
class Locator where
  /-- The number of the line. -/
  lineNumber : List Char → Nat → Nat
  /-- The column of the character at the offset. -/
  column : List Char → Nat → Nat
  /-- The text of the line, without a newline. -/
  line : List Char → Nat → List Char

/-- The offset lies on a line with this text, between these two parts of the whole text. The newline
behind a line lies on this line. -/
structure LineAt (cs : List Char) (offset : Nat) (before line after : List Char) : Prop where
  eq : cs = before ++ (line ++ after)
  start : before = [] ∨ before.getLast? = some '\n'
  newline_notMem : '\n' ∉ line
  stop : after = [] ∨ after.head? = some '\n'
  length_le : before.length ≤ offset
  le_length : offset ≤ before.length + line.length

/-- A locator counts newlines as the separators of lines, and lines and columns from one on. This is
said of the offsets of characters only. -/
class LawfulLocator [Locator] : Prop where
  /-- One more than the newlines before the line. -/
  lineNumber_eq {cs : List Char} {offset : Nat} {before line after : List Char}
    (h : LineAt cs offset before line after) (ho : offset < cs.length) :
    Locator.lineNumber cs offset = before.count '\n' + 1
  /-- One more than the characters of the line before the offset. -/
  column_eq {cs : List Char} {offset : Nat} {before line after : List Char}
    (h : LineAt cs offset before line after) (ho : offset < cs.length) :
    Locator.column cs offset = offset - before.length + 1
  /-- The line that contains the offset. -/
  line_eq {cs : List Char} {offset : Nat} {before line after : List Char}
    (h : LineAt cs offset before line after) (ho : offset < cs.length) :
    Locator.line cs offset = line

end Lox.Text
