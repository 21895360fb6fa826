import Lox.Text.Lines
import Lox.Text.Locator
import Mathlib.Algebra.GroupWithZero.Nat
import Mathlib.Algebra.Order.BigOperators.Group.List
import Mathlib.Algebra.Order.Group.Nat
import Mathlib.Data.List.DropRight
import Mathlib.Data.List.TakeWhile
import Mathlib.Tactic.Common

/-!
# Offsets and lines

An offset lies on the line whose characters, with the newline behind them, are in front of it and
behind it. Which line that is can be said from the lengths of the lines alone, without looking for
newlines; and it is the line that stands around the offset, between the nearest newlines on both
sides of it.

## Main definitions

* `lineStart lines i`: the number of characters in front of the line with the index `i`
* `OnLine lines offset number`: the offset lies on the line with this number

## Main results

* `splitLines_eq_splitOn`, `splitLines_intercalate`: splitting a text, and joining its lines
* `exists_lineAt`: an offset lies on a line
* `LineAt.onLine`, `LineAt.getElem?_splitLines`, `OnLine.unique`: which one of the lines that is
-/

namespace Lox.Text

variable {cs before line after : List Char} {lines : List (List Char)} {offset number : Nat}

/-- The number of characters in front of the line with this index, newlines included. -/
def lineStart (lines : List (List Char)) (i : Nat) : Nat :=
  ((lines.take i).map fun line => line.length + 1).sum

/-- The offset lies on the line with this number: at one of its characters, or behind all of
them. -/
structure OnLine (lines : List (List Char)) (offset number : Nat) : Prop where
  pos : 0 < number
  le : number ≤ lines.length
  start : lineStart lines (number - 1) ≤ offset
  stop : offset < lineStart lines number

/-! ## Splitting and joining -/

theorem splitLines_newline (cs : List Char) : splitLines ('\n' :: cs) = [] :: splitLines cs := rfl

/-- The first line ends in front of the first newline. -/
theorem splitLines_eq_cons (cs : List Char) :
    splitLines cs = cs.takeWhile (· ≠ '\n') :: (splitLines cs).tail := by
  induction cs with
  | nil => rfl
  | cons c cs ih =>
    by_cases h : c = '\n'
    · subst h
      rfl
    · rw [splitLines_cons, ih, List.takeWhile_cons_of_pos (by simpa using h)]
      simp [consLine, h]

theorem splitLines_cons_of_ne {c : Char} (h : c ≠ '\n') (cs : List Char) :
    splitLines (c :: cs) = (splitLines cs).modifyHead (c :: ·) := by
  rw [splitLines_cons, splitLines_eq_cons cs]
  simp [consLine, h]

/-- Lines are what stands between newlines. -/
theorem splitLines_eq_splitOn (cs : List Char) : splitLines cs = cs.splitOn '\n' := by
  induction cs with
  | nil => rfl
  | cons c cs ih =>
    rw [List.splitOn_eq_splitOnP] at ih ⊢
    rw [List.splitOnP_cons_eq_if_modifyHead, ← ih]
    by_cases h : c = '\n'
    · subst h
      rfl
    · rw [splitLines_cons_of_ne h, if_neg (by simpa using h)]

/-- Rows that are joined by newlines are the lines of the text that they make. -/
theorem splitLines_intercalate {rows : List (List Char)} (h : ∀ row ∈ rows, '\n' ∉ row)
    (hne : rows ≠ []) : splitLines (['\n'].intercalate rows) = rows := by
  rw [splitLines_eq_splitOn, List.splitOn_intercalate '\n' h hne]

/-- Lines have no newlines. -/
theorem newline_notMem_of_mem_splitLines {line : List Char} (h : line ∈ splitLines cs) :
    '\n' ∉ line := by
  induction cs generalizing line with
  | nil =>
    obtain rfl := List.mem_singleton.mp h
    exact List.not_mem_nil
  | cons c cs ih =>
    by_cases hc : c = '\n'
    · subst hc
      rw [splitLines_newline] at h
      rcases List.mem_cons.mp h with rfl | h
      · exact List.not_mem_nil
      · exact ih h
    · rw [splitLines_cons_of_ne hc, splitLines_eq_cons cs, List.modifyHead_cons] at h
      rcases List.mem_cons.mp h with rfl | h
      · exact fun hm => (List.mem_cons.mp hm).elim (fun h => hc h.symm) fun hm => by
          simpa using List.mem_takeWhile_imp hm
      · exact ih (List.mem_of_mem_tail h)

/-- The lines in front of a newline are complete. -/
theorem splitLines_append_newline (a b : List Char) :
    splitLines (a ++ '\n' :: b) = splitLines a ++ splitLines b := by
  induction a with
  | nil => rfl
  | cons c a ih =>
    by_cases h : c = '\n'
    · subst h
      rw [List.cons_append, splitLines_newline, splitLines_newline, ih, List.cons_append]
    · rw [List.cons_append, splitLines_cons_of_ne h, splitLines_cons_of_ne h, ih,
        splitLines_eq_cons a, List.cons_append, List.modifyHead_cons, List.modifyHead_cons,
        List.cons_append]

/-- Each character of a text belongs to one of its lines or stands behind one of them. -/
theorem sum_splitLines (cs : List Char) :
    ((splitLines cs).map fun line => line.length + 1).sum = cs.length + 1 := by
  induction cs with
  | nil => rfl
  | cons c cs ih =>
    by_cases h : c = '\n'
    · subst h
      rw [splitLines_newline, List.map_cons, List.sum_cons, ih, List.length_cons, List.length_nil]
      omega
    · rw [splitLines_eq_cons cs, List.map_cons, List.sum_cons] at ih
      rw [splitLines_cons_of_ne h, splitLines_eq_cons cs, List.modifyHead_cons, List.map_cons,
        List.sum_cons, List.length_cons, List.length_cons]
      omega

/-! ## The line of an offset -/

theorem lineStart_append (above below : List (List Char)) :
    lineStart (above ++ below) above.length = (above.map fun line => line.length + 1).sum := by
  rw [lineStart, List.take_left]

theorem lineStart_mono (lines : List (List Char)) : Monotone (lineStart lines) := by
  intro i j h
  exact ((List.take_sublist_take_left h).map _).sum_le_sum fun _ _ => Nat.zero_le _

/-- An offset lies on one line. -/
theorem OnLine.unique {n : Nat} (h : OnLine lines offset number) (h' : OnLine lines offset n) :
    n = number := by
  have hmono := lineStart_mono lines
  have hle : ¬n < number := fun hlt => by
    have := hmono (show n ≤ number - 1 by omega)
    have := h.start
    have := h'.stop
    omega
  have hge : ¬number < n := fun hlt => by
    have := hmono (show number ≤ n - 1 by omega)
    have := h.stop
    have := h'.start
    omega
  omega

/-- A line goes on to the next newline. -/
theorem takeWhile_line {line after : List Char} (hline : '\n' ∉ line)
    (hstop : after = [] ∨ after.head? = some '\n') :
    (line ++ after).takeWhile (· ≠ '\n') = line := by
  have hafter : after.takeWhile (· ≠ '\n') = [] := by
    rcases hstop with rfl | hstop
    · rfl
    · obtain ⟨rest, rfl⟩ := List.head?_eq_some_iff.mp hstop
      rfl
  have hinner : ∀ c ∈ line, decide (c ≠ '\n') = true := fun c hc =>
    decide_eq_true fun hn => hline (hn ▸ hc)
  rw [List.takeWhile_append_of_pos hinner, hafter, List.append_nil]

/-- The line between two newlines is one of the lines of the text. -/
theorem LineAt.exists_splitLines (h : LineAt cs offset before line after) :
    ∃ above below, splitLines cs = above ++ line :: below ∧ above.length = before.count '\n' ∧
      (above.map fun line => line.length + 1).sum = before.length := by
  have hline : splitLines (line ++ after) = line :: (splitLines (line ++ after)).tail := by
    conv_lhs => rw [splitLines_eq_cons, takeWhile_line h.newline_notMem h.stop]
  rcases h.start with rfl | hstart
  · exact ⟨[], _, h.eq ▸ hline, rfl, rfl⟩
  · obtain ⟨b, rfl⟩ := List.getLast?_eq_some_iff.mp hstart
    have hcs : cs = b ++ '\n' :: (line ++ after) := by simp [h.eq]
    refine ⟨splitLines b, _, by rw [hcs, splitLines_append_newline, ← hline], ?_, ?_⟩
    · rw [length_splitLines, List.count_append, List.count_singleton_self, newlines]
    · rw [sum_splitLines, List.length_append, List.length_singleton]

theorem LineAt.lineStart_eq (h : LineAt cs offset before line after) :
    lineStart (splitLines cs) (before.count '\n') = before.length := by
  obtain ⟨above, below, hsplit, hlength, hsum⟩ := h.exists_splitLines
  rw [hsplit, ← hlength, lineStart_append, hsum]

/-- The line that stands around the offset is the one that it lies on. -/
theorem LineAt.onLine (h : LineAt cs offset before line after) :
    OnLine (splitLines cs) offset (before.count '\n' + 1) := by
  obtain ⟨above, below, hsplit, hlength, hsum⟩ := h.exists_splitLines
  have hstop : lineStart (splitLines cs) (before.count '\n' + 1) =
      before.length + (line.length + 1) := by
    have hnext : before.count '\n' + 1 = (above ++ [line]).length := by simp [hlength]
    rw [hsplit, List.append_cons, hnext, lineStart_append]
    simp [hsum]
  have hstart := h.lineStart_eq
  have hge := h.length_le
  have hle := h.le_length
  refine ⟨Nat.succ_pos _, ?_, by rwa [Nat.add_sub_cancel, hstart], by omega⟩
  rw [hsplit, List.length_append, List.length_cons]
  omega

/-- The text around the offset is that of the line. -/
theorem LineAt.getElem?_splitLines (h : LineAt cs offset before line after) :
    (splitLines cs)[before.count '\n']? = some line := by
  obtain ⟨above, below, hsplit, hlength, -⟩ := h.exists_splitLines
  rw [hsplit, ← hlength, List.getElem?_append_right (Nat.le_refl _), Nat.sub_self,
    List.getElem?_cons_zero]

/-- A character stands as far behind the start of its line as its offset says, but a newline stands
behind its line. -/
theorem LineAt.getElem?_line {row : List Char} {c : Char} (h : LineAt cs offset before row after)
    (hc : cs[offset]? = some c) :
    if c = '\n' then offset - before.length = row.length
    else row[offset - before.length]? = some c := by
  have hle := h.le_length
  rw [h.eq, List.getElem?_append_right h.length_le] at hc
  rcases Nat.lt_or_ge (offset - before.length) row.length with hlt | hge
  · rw [List.getElem?_append_left hlt] at hc
    rw [if_neg, hc]
    rintro rfl
    exact h.newline_notMem (List.mem_of_getElem? hc)
  · have hend : offset - before.length = row.length := by omega
    rw [hend, List.getElem?_append_right (Nat.le_refl _), Nat.sub_self] at hc
    rcases h.stop with rfl | hstop
    · simp at hc
    · obtain ⟨rest, rfl⟩ := List.head?_eq_some_iff.mp hstop
      obtain rfl : '\n' = c := by simpa using hc
      rw [if_pos rfl, hend]

theorem LineAt.take_eq (h : LineAt cs offset before line after) :
    cs.take offset = before ++ line.take (offset - before.length) := by
  have hle := h.le_length
  rw [h.eq, List.take_append, List.take_of_length_le h.length_le,
    List.take_append_of_le_length (by omega)]

theorem LineAt.drop_eq (h : LineAt cs offset before line after) :
    cs.drop offset = line.drop (offset - before.length) ++ after := by
  have hle := h.le_length
  rw [h.eq, List.drop_append, List.drop_eq_nil_of_le h.length_le, List.nil_append,
    List.drop_append_of_le_length (by omega)]

/-- The newlines before an offset are those before its line. -/
theorem LineAt.count_take (h : LineAt cs offset before line after) :
    (cs.take offset).count '\n' = before.count '\n' := by
  have hline : (line.take (offset - before.length)).count '\n' = 0 :=
    List.count_eq_zero.mpr fun hm => h.newline_notMem (List.mem_of_mem_take hm)
  rw [h.take_eq, List.count_append, hline, Nat.add_zero]

/-- Each offset lies on a line. -/
theorem exists_lineAt (h : offset ≤ cs.length) :
    ∃ before line after, LineAt cs offset before line after := by
  let before := (cs.take offset).rdropWhile (· ≠ '\n')
  let left := (cs.take offset).rtakeWhile (· ≠ '\n')
  let right := (cs.drop offset).takeWhile (· ≠ '\n')
  let after := (cs.drop offset).dropWhile (· ≠ '\n')
  have hleft : before ++ left = cs.take offset := List.rdropWhile_append_rtakeWhile
  have hright : right ++ after = cs.drop offset := List.takeWhile_append_dropWhile
  have hlength : before.length + left.length = offset := by
    rw [← List.length_append, hleft, List.length_take_of_le h]
  refine ⟨before, left ++ right, after, ?_, ?_, ?_, ?_, by omega, ?_⟩
  · rw [List.append_assoc, hright, ← List.append_assoc, hleft, List.take_append_drop]
  · refine or_iff_not_imp_left.mpr fun hne => ?_
    have hlast : ¬decide (before.getLast hne ≠ '\n') = true := List.rdropWhile_last_not _ _ hne
    rw [List.getLast?_eq_some_getLast hne]
    simpa using hlast
  · rw [List.mem_append]
    rintro (hm | hm)
    · simpa using List.mem_rtakeWhile_imp hm
    · simpa using List.mem_takeWhile_imp hm
  · refine or_iff_not_imp_left.mpr fun hne => ?_
    have hhead : decide (after.head hne ≠ '\n') = false := List.head_dropWhile_not _ hne
    rw [List.head?_eq_some_head hne]
    simpa using hhead
  · rw [List.length_append]
    omega

end Lox.Text
