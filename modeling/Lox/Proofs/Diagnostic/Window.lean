import Lox.Diagnostic.Context
import Lox.Proofs.Text.Place
import Mathlib.Data.List.Basic

/-!
# The window of lines around an offset

Source context shows the line of an offset, so many lines before and after it, as far as there are
any, and a caret below the line itself. If the locator that finds the line is lawful, what is shown
can be said from the lines of the source and their lengths.

A row begins with the number of its line in a column of four, and the caret stands behind a margin
that is made for such rows. A number of more digits moves its row to the right, but not the caret.

## Main definitions

* `Context.numbered lines i`, `Context.numberedRows lines first last`: a line with its number in
  front of it, and the lines with the numbers from `first` to `last`
* `Context.indexInRow lines number offset`: where the character at an offset stands in the row of
  its line
* `Context.windowRows lines offset number k`: the rows around the line of an offset
* `Context.IsCaretRow row`: the row has nothing but a caret

## Main results

* `Context.contextRows_eq`: the rows of a window
* `Context.window_shows_lines`: a window shows the lines around an offset
* `Context.idxOf_caret`: where the caret stands
-/

namespace Lox.Context

variable {cs : List Char} {offset number : Nat} {lines : List (List Char)}

/-- A line with its number in front of it. -/
def numbered (lines : List (List Char)) (i : Nat) : List Char :=
  (Nat.toDigits 10 i).leftpad 4 ' ' ++ [':', ' '] ++ lines.getD (i - 1) []

/-- The lines with the numbers from `first` to `last`, each one with its number. -/
def numberedRows (lines : List (List Char)) (first last : Nat) : List (List Char) :=
  (List.range' first (last + 1 - first)).map (numbered lines)

/-- The rows around the line with this number, on which the offset lies: `k` lines before it, the
line itself, a caret as far behind a margin of six as the offset is behind the start of the line,
and `k` lines behind it. -/
def windowRows (lines : List (List Char)) (offset number k : Nat) : List (List Char) :=
  numberedRows lines (max 1 (number - k)) number ++
    (List.replicate (6 + (offset - Text.lineStart lines (number - 1))) ' ' ++ ['^']) ::
      numberedRows lines (number + 1) (min lines.length (number + k))

/-- The row has a caret behind blanks. -/
def IsCaretRow (row : List Char) : Prop :=
  ∃ n, row = List.replicate n ' ' ++ ['^']

theorem lineRow_eq_numbered (lines : List (List Char)) (i : Nat) :
    lineRow i (lines.getD (i - 1) []) = numbered lines i := by
  simp [lineRow, numbered, Text.paddedNumber, List.leftpad]

/-! ## Rows -/

theorem numberedRows_succ (lines : List (List Char)) {first n : Nat} (h : first ≤ n + 1) :
    numberedRows lines first (n + 1) =
      numberedRows lines first n ++ [numbered lines (n + 1)] := by
  have hlength : n + 1 + 1 - first = n + 1 - first + 1 := by omega
  have hlast : first + 1 * (n + 1 - first) = n + 1 := by omega
  rw [numberedRows, numberedRows, hlength, List.range'_concat, List.map_append, hlast]
  rfl

theorem numberedRows_eq_nil (lines : List (List Char)) {first last : Nat} (h : last < first) :
    numberedRows lines first last = [] := by
  rw [numberedRows, Nat.sub_eq_zero_of_le h]
  rfl

/-- Lines and their numbers. -/
theorem zipIdx_eq_map (lines : List (List Char)) :
    lines.zipIdx 1 = (List.range' 1 lines.length).map fun i => (lines.getD (i - 1) [], i) := by
  refine List.ext_getElem (by simp) fun i hi _ => ?_
  have hi : i < lines.length := by simpa using hi
  simp [Nat.add_comm, hi]

/-- The lines up to a number, without so many of the first ones. -/
theorem drop_take_zipIdx {skipped last : Nat} (h : last ≤ lines.length) :
    ((lines.zipIdx 1).take last).drop skipped =
      (List.range' (skipped + 1) (last - skipped)).map fun i => (lines.getD (i - 1) [], i) := by
  rw [zipIdx_eq_map, ← List.map_take, ← List.map_drop, List.take_range'_of_length_ge h,
    List.drop_range', Nat.mul_one, Nat.add_comm 1 skipped]

/-- Rows with the numbers from `first` to `last`, one of which has another row behind it. -/
theorem flatMap_range' {β : Type} {f : Nat → List β} {g : Nat → β} {row : β}
    {first last : Nat} (hf : ∀ i, f i = if i = number then [g i, row] else [g i])
    (hfirst : first ≤ number) (hlast : number ≤ last) :
    (List.range' first (last + 1 - first)).flatMap f =
      (List.range' first (number + 1 - first)).map g ++
        row :: (List.range' (number + 1) (last + 1 - (number + 1))).map g := by
  have hother {l : List Nat} (hl : number ∉ l) : l.flatMap f = l.map g := by
    rw [List.map_eq_flatMap]
    refine List.flatMap_congr fun i hi => ?_
    rw [hf, if_neg]
    rintro rfl
    exact hl hi
  have hbefore : List.range' first (number + 1 - first) =
      List.range' first (number - first) ++ [number] := by
    rw [Nat.succ_sub hfirst, List.range'_concat, Nat.one_mul, Nat.add_sub_of_le hfirst]
  have hall : List.range' first (last + 1 - first) =
      List.range' first (number + 1 - first) ++
        List.range' (number + 1) (last + 1 - (number + 1)) := by
    have hstart : first + (number + 1 - first) = number + 1 := by omega
    have hlength : last + 1 - first = number + 1 - first + (last + 1 - (number + 1)) := by omega
    rw [hlength, ← List.range'_append_1, hstart]
  rw [hall, hbefore, List.flatMap_append, List.flatMap_append,
    hother (l := List.range' first (number - first)) fun hm => by
      have := (List.mem_range'_1.mp hm).2
      omega,
    hother (l := List.range' (number + 1) _) fun hm => by
      have := (List.mem_range'_1.mp hm).1
      omega]
  simp [hf]

/-- The row of the line is its text with its number in front. -/
theorem numbered_eq_lineRow {before line after : List Char}
    (h : Text.LineAt cs offset before line after) :
    numbered (Text.splitLines cs) (before.count '\n' + 1) =
      lineRow (before.count '\n' + 1) line := by
  rw [← lineRow_eq_numbered, List.getD_eq_getElem?_getD, Nat.add_sub_cancel,
    h.getElem?_splitLines]
  rfl

section Lawful

variable [Text.Locator] [Text.LawfulLocator] {before line after : List Char}

/-- The caret stands as far behind its margin as the offset is behind the start of its line. -/
theorem caretRow_column (h : Text.LineAt cs offset before line after) (ho : offset < cs.length) :
    caretRow (Text.Locator.column cs offset) = List.replicate (6 +
      (offset - Text.lineStart (Text.splitLines cs) (before.count '\n'))) ' ' ++ ['^'] := by
  rw [caretRow, Text.LawfulLocator.column_eq h ho, Nat.add_sub_cancel, h.lineStart_eq,
    List.replicate_append_replicate]

/-- The rows that are shown are those of the window. -/
theorem contextRows_eq (h : Text.LineAt cs offset before line after) (ho : offset < cs.length)
    (k : Nat) :
    contextRows cs offset k =
      windowRows (Text.splitLines cs) offset (before.count '\n' + 1) k := by
  have hle := h.onLine.le
  have hline := numbered_eq_lineRow h
  have hcaret := caretRow_column h ho
  simp only [contextRows, windowRows, Text.LawfulLocator.lineNumber_eq h ho,
    Text.LawfulLocator.line_eq h ho, hcaret, Nat.add_sub_cancel]
  generalize List.replicate _ ' ' ++ ['^'] = caret
  generalize Text.splitLines cs = lines at *
  generalize hnumber : before.count '\n' + 1 = number at *
  have hskipped : (max 0 ((number : Int) - k - 1)).toNat = max 1 (number - k) - 1 := by omega
  have hlast : (min (lines.length : Int) (number + k)).toNat = min lines.length (number + k) := by
    omega
  have hfirst : max 1 (number - k) - 1 + 1 = max 1 (number - k) := by omega
  have hlength : min lines.length (number + k) - (max 1 (number - k) - 1) =
      min lines.length (number + k) + 1 - max 1 (number - k) := by omega
  have hrow (i : Nat) : (if i = number then [lineRow i line, caret]
      else [lineRow i (lines.getD (i - 1) [])]) =
      if i = number then [numbered lines i, caret] else [numbered lines i] := by
    by_cases hi : i = number
    · rw [if_pos hi, if_pos hi, hi, hline]
    · rw [if_neg hi, if_neg hi, lineRow_eq_numbered]
  rw [hskipped, hlast, drop_take_zipIdx (Nat.min_le_left ..), hfirst, hlength, List.flatMap_map]
  exact flatMap_range' hrow (by omega) (by omega)

/-- Without lines around it, the line at an offset is shown with its number and a caret. -/
theorem contextRows_zero (h : Text.LineAt cs offset before line after) (ho : offset < cs.length) :
    contextRows cs offset 0 =
      [lineRow (before.count '\n' + 1) line, caretRow (offset - before.length + 1)] := by
  have hrows := contextRows_eq h ho 0
  rw [windowRows, Nat.add_sub_cancel, ← caretRow_column h ho,
    Text.LawfulLocator.column_eq h ho, numberedRows_succ _ (by omega),
    numberedRows_eq_nil _ (by omega), numberedRows_eq_nil _ (by omega),
    numbered_eq_lineRow h] at hrows
  exact hrows

end Lawful

/-- Of fewer lines than one, none is shown. -/
theorem contextRows_of_neg [Text.Locator] (cs : List Char) (offset : Nat) {k : Int} (h : k < 0) :
    contextRows cs offset k = [] := by
  unfold contextRows
  generalize Text.Locator.lineNumber cs offset = number
  dsimp only
  rw [List.drop_eq_nil_of_le, List.flatMap_nil]
  rw [List.length_take]
  omega

/-! ## Texts -/

theorem newline_notMem_numbered (h : ∀ line ∈ lines, '\n' ∉ line) (i : Nat) :
    '\n' ∉ numbered lines i := by
  have hdigits : '\n' ∉ Nat.toDigits 10 i := fun hm =>
    absurd (Nat.isDigit_of_mem_toDigits (by decide) (by decide) hm) (by decide)
  have hline : '\n' ∉ lines[i - 1]?.getD [] := by
    cases hl : lines[i - 1]? with
    | none => exact List.not_mem_nil
    | some line => exact h line (List.mem_of_getElem? hl)
  simp [numbered, List.leftpad, hdigits, hline]

theorem newline_notMem_windowRows (h : ∀ line ∈ lines, '\n' ∉ line) (offset number k : Nat) :
    ∀ row ∈ windowRows lines offset number k, '\n' ∉ row := by
  have hnumbered {first last : Nat} : ∀ row ∈ numberedRows lines first last, '\n' ∉ row := by
    intro row hrow
    obtain ⟨i, -, rfl⟩ := List.mem_map.mp hrow
    exact newline_notMem_numbered h i
  refine List.forall_mem_append.mpr ⟨hnumbered, List.forall_mem_cons.mpr ⟨by simp, hnumbered⟩⟩

theorem toList_contextText [Text.Locator] {source : String} (h : source ≠ "") (offset k : Int) :
    (contextText source offset k).toList = ['\n'].intercalate
      (contextRows source.toList (clampOffset source.toList.length offset) k) := by
  have hne : source.toList.isEmpty = false := by simpa using h
  simp [contextText, hne]

theorem clampOffset_lt (h : cs ≠ []) (offset : Int) : clampOffset cs.length offset < cs.length := by
  have hpos := List.length_pos_iff.mpr h
  unfold clampOffset
  omega

section Lawful

variable [Text.Locator] [Text.LawfulLocator] {source : String} {before line after : List Char}

/-- The lines of the text that is shown are the rows of the window. -/
theorem splitLines_contextText {offset : Int} {place : Nat}
    (h : Text.LineAt source.toList place before line after) (hne : source ≠ "")
    (hplace : clampOffset source.toList.length offset = place) (k : Nat) :
    Text.splitLines (contextText source offset k).toList =
      windowRows (Text.splitLines source.toList) place (before.count '\n' + 1) k := by
  have hlt := clampOffset_lt (by simpa using hne : source.toList ≠ []) offset
  rw [toList_contextText hne, hplace, contextRows_eq h (hplace ▸ hlt)]
  refine Text.splitLines_intercalate ?_ (by simp [windowRows])
  exact newline_notMem_windowRows (fun _ => Text.newline_notMem_of_mem_splitLines) _ _ _

/-- **Windows show lines.** An offset, or the nearest one that there is in the source, lies on one
line, and the text that a lawful locator finds for it is that line. With `k` lines before it and
behind it, as far as there are so many, this line is shown: each of them in order with its number in
front, and a caret below the line itself. With fewer lines than one, nothing is shown. -/
theorem window_shows_lines (h : source ≠ "") (offset : Int) :
    let lines := source.toList.splitOn '\n'
    let place := (max 0 (min offset (source.length - 1))).toNat
    ∃ number, (∀ n, Text.OnLine lines place n ↔ n = number) ∧
      lines[number - 1]? = some (Text.Locator.line source.toList place) ∧
      (∀ k : Nat, (contextText source offset k).toList.splitOn '\n' =
        windowRows lines place number k) ∧
      ∀ k < 0, contextText source offset k = "" := by
  have hlt := clampOffset_lt (by simpa using h : source.toList ≠ []) offset
  have hclamp : (max 0 (min offset ((source.length : Int) - 1))).toNat =
      clampOffset source.toList.length offset := by
    rw [clampOffset, String.length_toList]
  simp only [hclamp, ← Text.splitLines_eq_splitOn]
  obtain ⟨before, line, after, hline⟩ := Text.exists_lineAt hlt.le
  refine ⟨before.count '\n' + 1, fun n => ⟨hline.onLine.unique, ?_⟩, ?_,
    splitLines_contextText hline h rfl, fun k hk => ?_⟩
  · rintro rfl
    exact hline.onLine
  · rw [Text.LawfulLocator.line_eq hline hlt, Nat.add_sub_cancel, hline.getElem?_splitLines]
  · have hrows := toList_contextText h offset k
    rw [contextRows_of_neg _ _ hk] at hrows
    exact String.toList_inj.mp hrows

end Lawful

/-- The middle one of three lines, the last of which is empty, with the lines around it. -/
theorem window_shows_lines_middle :
    "a\nb\n" ≠ "" ∧ (contextText "a\nb\n" 2 1).toList.splitOn '\n' =
        ["   1: a".toList, "   2: b".toList, "      ^".toList, "   3: ".toList] ∧
      (-1 : Int) < 0 ∧ contextText "a\nb\n" 2 (-1) = "" := by
  obtain ⟨number, honline, -, hrows, hnone⟩ := window_shows_lines (by decide : "a\nb\n" ≠ "") 2
  obtain rfl : 2 = number := (honline 2).mp ⟨by decide, by decide, by decide, by decide⟩
  exact ⟨by decide, (hrows 1).trans (by decide), by decide, hnone (-1) (by decide)⟩

/-! ## The caret -/

/-- Where the character at an offset stands in the row of its line, which has this number. A newline
stands at the end of the row. -/
def indexInRow (lines : List (List Char)) (number offset : Nat) : Nat :=
  ((Nat.toDigits 10 number).leftpad 4 ' ' ++ [':', ' ']).length +
    (offset - Text.lineStart lines (number - 1))

/-- The row of a line has a colon in it. -/
theorem not_isCaretRow_numbered (lines : List (List Char)) (i : Nat) :
    ¬IsCaretRow (numbered lines i) := by
  rintro ⟨n, hn⟩
  have hcolon : ':' ∈ List.replicate n ' ' ++ ['^'] := by
    rw [← hn]
    simp [numbered]
  simp at hcolon

theorem not_isCaretRow_numberedRows (lines : List (List Char)) (first last : Nat) :
    ∀ row ∈ numberedRows lines first last, ¬IsCaretRow row := by
  intro row hrow
  obtain ⟨i, -, rfl⟩ := List.mem_map.mp hrow
  exact not_isCaretRow_numbered lines i

/-- At its index in the row of its line, there is the character. -/
theorem getElem?_numbered {before line after : List Char} {c : Char}
    (h : Text.LineAt cs offset before line after) (hc : cs[offset]? = some c) :
    let lines := Text.splitLines cs
    let number := before.count '\n' + 1
    if c = '\n' then indexInRow lines number offset = (numbered lines number).length
    else (numbered lines number)[indexInRow lines number offset]? = some c := by
  have hchar := h.getElem?_line hc
  simp only [indexInRow, numbered, Nat.add_sub_cancel, h.lineStart_eq, List.getD_eq_getElem?_getD,
    h.getElem?_splitLines, Option.getD_some]
  split at hchar
  · rename_i hn
    rw [if_pos hn, hchar, ← List.length_append]
  · rename_i hn
    rw [if_neg hn, List.getElem?_append_right (Nat.le_add_right _ _), Nat.add_sub_cancel_left,
      hchar]

/-- The margin of the caret is made for numbers of at most four digits. -/
theorem idxOf_caret_add (lines : List (List Char)) (number offset : Nat) :
    (List.replicate (6 + (offset - Text.lineStart lines (number - 1))) ' ' ++ ['^']).idxOf '^' +
      ((Nat.toDigits 10 number).length - 4) = indexInRow lines number offset := by
  rw [List.idxOf_append_of_notMem (by simp), List.length_replicate, List.idxOf_cons_self,
    indexInRow, List.length_append, List.length_leftpad]
  simp only [List.length_cons, List.length_nil]
  omega

/-- **The caret.** In the text that is shown for a character of the source, whatever lawful locator
finds its line, one row has nothing but a caret. Directly above it is the row of the line of the
character, and the caret stands as far to the left of the character as the number of the line has
more digits than four; so it stands below the character if the number is less than ten thousand, and
only then. -/
theorem idxOf_caret [Text.Locator] [Text.LawfulLocator] {source : String} {offset : Nat}
    (h : offset < source.length) (k : Nat) :
    let lines := source.toList.splitOn '\n'
    ∃ number above caret below,
      Text.OnLine lines offset number ∧
      (contextText source offset k).toList.splitOn '\n' =
        above ++ numbered lines number :: caret :: below ∧
      IsCaretRow caret ∧ (∀ row ∈ above ++ numbered lines number :: below, ¬IsCaretRow row) ∧
      (∀ c, source.toList[offset]? = some c →
        if c = '\n' then indexInRow lines number offset = (numbered lines number).length
        else (numbered lines number)[indexInRow lines number offset]? = some c) ∧
      caret.idxOf '^' + ((Nat.toDigits 10 number).length - 4) = indexInRow lines number offset ∧
      (caret.idxOf '^' = indexInRow lines number offset ↔ number < 10000) := by
  have hne : source ≠ "" := by
    rintro rfl
    exact absurd h (Nat.not_lt_zero _)
  have hlt : offset < source.toList.length := by rwa [String.length_toList]
  have hclamp : clampOffset source.toList.length offset = offset := by
    unfold clampOffset
    omega
  obtain ⟨before, line, after, hline⟩ := Text.exists_lineAt hlt.le
  have hrows := splitLines_contextText hline hne hclamp k
  have hchar (c : Char) (hc : source.toList[offset]? = some c) := getElem?_numbered hline hc
  have honline := hline.onLine
  simp only [← Text.splitLines_eq_splitOn, hrows] at hchar ⊢
  generalize Text.splitLines source.toList = lines at *
  generalize before.count '\n' = n at *
  have hcaret := idxOf_caret_add lines (n + 1) offset
  have hdigits : (Nat.toDigits 10 (n + 1)).length ≤ 4 ↔ n + 1 < 10000 :=
    Nat.length_toDigits_le_iff (by decide) (by decide)
  refine ⟨n + 1, numberedRows lines (max 1 (n + 1 - k)) n, _,
    numberedRows lines (n + 1 + 1) (min lines.length (n + 1 + k)), honline, ?_, ⟨_, rfl⟩, ?_, hchar,
    hcaret, by omega⟩
  · rw [windowRows, numberedRows_succ lines (by omega), List.append_assoc]
    rfl
  · exact List.forall_mem_append.mpr ⟨not_isCaretRow_numberedRows _ _ _,
      List.forall_mem_cons.mpr ⟨not_isCaretRow_numbered _ _, not_isCaretRow_numberedRows _ _ _⟩⟩

/-- The last character of a source stands on its second line. -/
theorem idxOf_caret_second_line :
    3 < "a\nbc".length ∧ ∃ above caret below,
      (contextText "a\nbc" 3 1).toList.splitOn '\n' =
        above ++ "   2: bc".toList :: caret :: below ∧
      "   2: bc".toList[7]? = some 'c' ∧ caret.idxOf '^' = 7 := by
  obtain ⟨number, above, caret, below, hline, hrows, -, -, -, hcaret, -⟩ :=
    idxOf_caret (by decide : 3 < "a\nbc".length) 1
  obtain rfl : number = 2 :=
    hline.unique ⟨by decide, by decide, by decide, by decide⟩ |>.symm
  exact ⟨by decide, above, caret, below, hrows, by decide, hcaret⟩

/-- So many newlines and one more character. -/
def lastOfLines (n : Nat) : String :=
  String.ofList (List.replicate n '\n' ++ ['x'])

theorem getElem?_lastOfLines (n : Nat) : (lastOfLines n).toList[n]? = some 'x' := by
  rw [lastOfLines, String.toList_ofList, List.getElem?_append_right (by simp)]
  simp

/-- The last line has the last number. -/
theorem lineAt_lastOfLines (n : Nat) :
    Text.LineAt (lastOfLines n).toList n (List.replicate n '\n') ['x'] [] where
  eq := String.toList_ofList
  start := by cases n <;> simp [List.getLast?_replicate]
  newline_notMem := by decide
  stop := .inl rfl
  length_le := by simp
  le_length := by simp

theorem splitLines_contextText_lastOfLines [Text.Locator] [Text.LawfulLocator] (n : Nat) :
    Text.splitLines (contextText (lastOfLines n) n 0).toList =
      [(Nat.toDigits 10 (n + 1)).leftpad 4 ' ' ++ ": x".toList, "      ^".toList] := by
  have hlt : n < (lastOfLines n).toList.length :=
    (List.getElem?_eq_some_iff.mp (getElem?_lastOfLines n)).1
  have hne : lastOfLines n ≠ "" := by
    intro h
    rw [h] at hlt
    exact absurd hlt (Nat.not_lt_zero _)
  have hclamp : clampOffset (lastOfLines n).toList.length n = n := by
    unfold clampOffset
    omega
  have hline := lineAt_lastOfLines n
  have hzero : ((0 : Nat) : Int) = 0 := rfl
  have hrows := splitLines_contextText hline hne hclamp 0
  rw [← contextRows_eq hline hlt, hzero, contextRows_zero hline hlt] at hrows
  rw [hrows, List.count_replicate_self, List.length_replicate, Nat.sub_self]
  simp [lineRow, caretRow, Text.paddedNumber, List.leftpad]

/-- A line whose number has five digits is shown to the right of its caret. -/
theorem caret_beside_character :
    (9999 < (lastOfLines 9999).length ∧ (lastOfLines 9999).toList[9999]? = some 'x') ∧
      (contextText (lastOfLines 9999) 9999 0).toList.splitOn '\n' =
        ["10000: x".toList, "      ^".toList] ∧
      "10000: x".toList.idxOf 'x' = 7 ∧ "      ^".toList.idxOf '^' = 6 := by
  have hchar := getElem?_lastOfLines 9999
  have hlt := (List.getElem?_eq_some_iff.mp hchar).1
  rw [String.length_toList] at hlt
  refine ⟨⟨hlt, hchar⟩, ?_, by decide, by decide⟩
  rw [← Text.splitLines_eq_splitOn]
  exact splitLines_contextText_lastOfLines 9999

end Lox.Context
