import Lox.Diagnostic.Basic
import Lox.Text.Lines
import Lox.Text.Locator

/-!
# Source context

The lines of a source around a place in it, with a caret under the place, and the reports that show
them. The line of the place, its number and its column are those that a locator finds.

## Main definitions

* `clampOffset cs offset`: the offset of a character of the source, the nearest one to `offset`
* `contextRows cs offset k`: the line at the offset and `k` lines before and after it
* `contextText source offset k`: the rows as one text
* `report ds source`: diagnostics, each one followed by its line of the source
* `plainReport ds`: diagnostics without any lines
-/

namespace Lox.Context

/-- The nearest offset that belongs to a character of a source of this length. -/
def clampOffset (length : Nat) (offset : Int) : Nat :=
  (max 0 (min offset (length - 1))).toNat

/-- A row with a line of the source. -/
def lineRow (number : Nat) (line : List Char) : List Char :=
  Text.paddedNumber number ++ ':' :: ' ' :: line

/-- The row with a caret under a column. -/
def caretRow (column : Nat) : List Char :=
  List.replicate 6 ' ' ++ List.replicate (column - 1) ' ' ++ ['^']

variable [Text.Locator]

/-- The rows of the lines `number - k` to `number + k` of the source that there are, where `number`
is the number of the line at the offset, with a caret row after that line. -/
def contextRows (cs : List Char) (offset : Nat) (k : Int) : List (List Char) :=
  let number := Text.Locator.lineNumber cs offset
  let lines := Text.splitLines cs
  let first := (max 0 (number - k - 1)).toNat
  let last := (min (lines.length : Int) (number + k)).toNat
  ((lines.zipIdx 1).take last |>.drop first).flatMap fun (line, i) =>
    if i = number then
      [lineRow i (Text.Locator.line cs offset), caretRow (Text.Locator.column cs offset)]
    else [lineRow i line]

/-- The rows around an offset, one to a line. An empty source has none. -/
def contextText (source : String) (offset k : Int) : String :=
  let cs := source.toList
  if cs.isEmpty then ""
  else
    "\n".intercalate
      ((contextRows cs (clampOffset cs.length offset) k).map String.ofList)

/-- One diagnostic and, with a source and an offset in it, the line that it is about. -/
def reportLines (source : Option String) (d : Diagnostic) : List String :=
  match source, d.offset with
  | some source, some offset =>
    let context := contextText source offset 0
    if context.isEmpty then [d.text] else [d.text, context]
  | _, _ => [d.text]

/-- The diagnostics, one after another. -/
def report (ds : List Diagnostic) (source : Option String) : String :=
  "\n".intercalate (ds.flatMap (reportLines source))

/-- The diagnostics, when there is no source to show lines of. -/
def plainReport (ds : List Diagnostic) : String :=
  "\n".intercalate (ds.map Diagnostic.text)

theorem report_none (ds : List Diagnostic) : report ds none = plainReport ds := by
  rw [report, plainReport, List.map_eq_flatMap]
  rfl

end Lox.Context
