/-!
# Blanks

The blank characters, and the trimming of blanks from both ends of a text.

## Main definitions

* `isBlank c`: `c` is a blank
* `trim s`: `s` without the blanks at its two ends
-/

namespace Lox.Text

/-- The blanks: the white space of Unicode and the four information separators. -/
def isBlank (c : Char) : Bool :=
  let n := c.toNat
  (9 ≤ n && n ≤ 13) || (0x1C ≤ n && n ≤ 0x20) || n == 0x85 || n == 0xA0 || n == 0x1680
    || (0x2000 ≤ n && n ≤ 0x200A) || n == 0x2028 || n == 0x2029 || n == 0x202F || n == 0x205F
    || n == 0x3000

/-- The characters without the blanks at their two ends. -/
def trimChars (cs : List Char) : List Char :=
  ((cs.dropWhile isBlank).reverse.dropWhile isBlank).reverse

/-- The text without the blanks at its two ends. -/
def trim (s : String) : String :=
  String.ofList (trimChars s.toList)

end Lox.Text
