import Lox.Proofs.Text.LineOffset
import Lox.Text.Place

/-!
# Places are lawful

The nearest newlines on both sides of an offset are those between which its line lies, so the
locator that looks for them is a lawful one.

## Main results

* `LineAt.lineBefore_eq`, `LineAt.lineFrom_eq`: what is found on both sides of an offset
* the instance of `LawfulLocator`
-/

namespace Lox.Text

variable {cs before line after : List Char} {offset : Nat}

theorem LineAt.lineBefore_eq (h : LineAt cs offset before line after) :
    lineBefore cs offset = line.take (offset - before.length) := by
  have hstart : before.reverse = [] ∨ before.reverse.head? = some '\n' := by
    rw [List.reverse_eq_nil_iff, List.head?_reverse]
    exact h.start
  have hline : '\n' ∉ (line.take (offset - before.length)).reverse := fun hm =>
    h.newline_notMem (List.mem_of_mem_take (List.mem_reverse.mp hm))
  rw [lineBefore, h.take_eq, List.reverse_append, takeWhile_line hline hstart, List.reverse_reverse]

theorem LineAt.lineFrom_eq (h : LineAt cs offset before line after) :
    lineFrom cs offset = line.drop (offset - before.length) := by
  have hline : '\n' ∉ line.drop (offset - before.length) := fun hm =>
    h.newline_notMem (List.mem_of_mem_drop hm)
  rw [lineFrom, h.drop_eq, takeWhile_line hline h.stop]

theorem LineAt.lineNumber_eq (h : LineAt cs offset before line after) :
    lineNumber cs offset = before.count '\n' + 1 := by
  rw [lineNumber, newlines, h.count_take]

theorem LineAt.column_eq (h : LineAt cs offset before line after) :
    column cs offset = offset - before.length + 1 := by
  have hle := h.le_length
  rw [column, h.lineBefore_eq, List.length_take_of_le (by omega)]

theorem LineAt.lineAround_eq (h : LineAt cs offset before line after) :
    lineAround cs offset = line := by
  rw [lineAround, h.lineBefore_eq, h.lineFrom_eq, List.take_append_drop]

instance : LawfulLocator where
  lineNumber_eq h _ := h.lineNumber_eq
  column_eq h _ := h.column_eq
  line_eq h _ := h.lineAround_eq

end Lox.Text
