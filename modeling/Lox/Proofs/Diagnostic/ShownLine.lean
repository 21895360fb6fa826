import Lox.Proofs.Diagnostic.Window
import Lox.Proofs.Grammar.Layout
import Lox.Proofs.Token.LineNumber

/-!
# The line that is shown

A report names a line, and under it stands a line of the source with its number. The two numbers
come about in different ways: the first one is that of the token or of the scan error, which is
where the scan has arrived when it is done with it, and the second one is what a lawful locator
finds at the offset, which is where the token or the error begins. So they differ where something
goes over the end of a line, and at the end of the source, where the last character is shown.

## Main definitions

* `Context.shownNumber text`: the line number that source context begins with
* `Context.shownLine source offset`: the line number that is shown for an offset
* `Diagnostic.IsAt d t`: the report is located at the token

## Main results

* `Context.shownLine_eq`: this is the number of the line that the offset is in
* `line_eq_shownLine`: how it differs from the line of a report
-/

namespace Lox

namespace Context

/-- The line number that source context begins with: the digits behind the blanks. -/
def shownNumber (text : String) : Nat :=
  Nat.ofDigitChars 10 ((text.toList.dropWhile (· = ' ')).takeWhile Char.isDigit) 0

/-- The number in front of a row can be read again. -/
theorem shownNumber_lineRow (number : Nat) (line rest : List Char) :
    shownNumber (String.ofList (lineRow number line ++ rest)) = number := by
  have hdigits : ∀ c ∈ Nat.toDigits 10 number, c.isDigit = true :=
    fun c hc => Nat.isDigit_of_mem_toDigits (by decide) (by decide) hc
  obtain ⟨d, ds, hds⟩ := List.exists_cons_of_ne_nil (Nat.toDigits_ne_nil (n := number) (b := 10))
  have hd : decide (d = ' ') = false := by
    have hdigit := hdigits d (hds ▸ List.mem_cons_self)
    refine decide_eq_false ?_
    rintro rfl
    exact absurd hdigit (by decide)
  have hrow : (lineRow number line ++ rest).dropWhile (fun c => decide (c = ' ')) =
      Nat.toDigits 10 number ++ ':' :: ' ' :: (line ++ rest) := by
    simp only [lineRow, Text.paddedNumber, List.append_assoc, List.cons_append]
    rw [List.dropWhile_append_of_pos fun c hc => by simp [List.eq_of_mem_replicate hc], hds,
      List.cons_append, List.dropWhile_cons_of_neg (by simp [hd])]
  rw [shownNumber, String.toList_ofList, hrow, takeWhile_append_stop (by decide),
    List.takeWhile_eq_self_iff.mpr hdigits, Nat.ofDigitChars_ten_toDigits]

/-- The line number that is shown for an offset, when no lines around it are. -/
def shownLine [Text.Locator] (source : String) (offset : Nat) : Nat :=
  shownNumber (contextText source offset 0)

/-- The number that is shown for an offset is that of its line, if the locator is lawful. Behind the
end of the source, it is that of the last character. -/
theorem shownLine_eq [Text.Locator] [Text.LawfulLocator] {source : String} (offset : Nat)
    {before rest : List Char} (hr : rest ≠ []) (hs : source.toList = before ++ rest)
    (ho : min offset (source.length - 1) = before.length) :
    shownLine source offset = 1 + before.count '\n' := by
  have hne : source.toList ≠ [] := by simp [hs, hr]
  have hlt : before.length < source.toList.length := by
    have hpos := List.length_pos_iff.mpr hr
    rw [hs, List.length_append]
    omega
  have hclamp : clampOffset source.toList.length offset = before.length := by
    rw [← String.length_toList] at ho
    unfold clampOffset
    omega
  have hjoin (row next : List Char) : "\n".intercalate ([row, next].map String.ofList) =
      String.ofList (row ++ '\n' :: next) :=
    String.toList_inj.mp (by simp)
  obtain ⟨above, line, below, hline⟩ := Text.exists_lineAt hlt.le
  unfold shownLine contextText
  simp only [List.isEmpty_iff, if_neg hne, hclamp, contextRows_zero hline hlt, hjoin]
  rw [shownNumber_lineRow, ← hline.count_take, hs, List.take_left, Nat.add_comm]

end Context

/-! ## Tokens and scan errors -/

variable {source : String}

/-- For a token, the line of its first character is shown. -/
theorem line_of_mem_tokens [Text.Locator] [Text.LawfulLocator] {t : Token}
    (h : t ∈ (scan source).stream.tokens) :
    t.offset < source.length ∧
      t.line = Context.shownLine source t.offset + t.lexeme.toList.count '\n' ∧
      (t.kind ≠ .string → t.line = Context.shownLine source t.offset) := by
  obtain ⟨before, rest, hs, hlex, ho, hl⟩ := exists_of_mem_tokens h
  have hpos := List.length_pos_iff.mpr hlex.ne_nil
  have hlength : source.length = before.length + (t.lexeme.toList.length + rest.length) := by
    rw [← String.length_toList, hs, List.length_append, List.length_append]
  have hshown := Context.shownLine_eq t.offset
    (List.append_ne_nil_of_left_ne_nil hlex.ne_nil rest) hs (by omega)
  refine ⟨by omega, by rw [hshown, hl], fun hk => ?_⟩
  rw [hshown, hl, List.count_eq_zero.mpr (hlex.newline_notMem hk), Nat.add_zero]

/-- At the end of a source, the line of the last character is shown. -/
theorem line_eof [Text.Locator] [Text.LawfulLocator] (h : source ≠ "") :
    (scan source).stream.eof.line = Context.shownLine source source.length +
      if source.toList.getLast? = some '\n' then 1 else 0 := by
  obtain hs | ⟨before, c, hs⟩ := List.eq_nil_or_concat source.toList
  · exact absurd hs (by simpa using h)
  rw [List.concat_eq_append] at hs
  have hlength : source.length = before.length + 1 := by
    rw [← String.length_toList, hs, List.length_append, List.length_singleton]
  rw [Context.shownLine_eq source.length (List.cons_ne_nil c []) hs (by omega), line_eof_scan, hs,
    List.getLast?_concat, List.count_append, List.count_singleton]
  simp [Nat.add_assoc]

/-- For a scan error, the line of its character is shown. -/
theorem line_of_mem_errors [Text.Locator] [Text.LawfulLocator] {e : ScanError}
    (h : e ∈ (scan source).errors) :
    e.offset < source.length ∧
      (e.fault ≠ .unterminatedString → e.line = Context.shownLine source e.offset) ∧
      (e.fault = .unterminatedString →
        e.line = Context.shownLine source e.offset + (source.toList.drop e.offset).count '\n') := by
  obtain ⟨before, c, rest, hs, ho, hfault⟩ := exists_of_mem_errors h
  have hlength : source.length = before.length + (rest.length + 1) := by
    rw [← String.length_toList, hs, List.length_append, List.length_cons]
  have hshown := Context.shownLine_eq e.offset (List.cons_ne_nil c rest) hs (by omega)
  rcases hfault with ⟨hf, hl⟩ | ⟨hf, -, -, hl⟩
  · refine ⟨by omega, fun _ => by rw [hshown, hl], fun hu => ?_⟩
    exact absurd (hf.symm.trans hu) (by simp)
  · refine ⟨by omega, fun hn => absurd hf hn, fun _ => ?_⟩
    rw [hshown, hl, ho, hs, List.drop_left, List.count_append, Nat.add_assoc]

/-! ## Reports -/

/-- The report is located at the token. -/
def Diagnostic.IsAt (d : Diagnostic) (t : Token) : Prop :=
  d.location = Grammar.location t ∧ d.offset = some (t.offset : Int)

theorem eq_of_offset_eq {t u : Token} (ht : t ∈ (scan source).stream.toList)
    (hu : u ∈ (scan source).stream.toList) (h : t.offset = u.offset) : t = u := by
  have hc : Cut 0 source.toList (scan source).stream.tokens (scan source).errors :=
    cut_scanChars source.toList
  have hpairwise : (scan source).stream.toList.Pairwise (·.offset < ·.offset) := by
    refine List.pairwise_append.mpr ⟨hc.tokens_pairwise, List.pairwise_singleton .., ?_⟩
    intro v hv w hw
    obtain rfl := List.mem_singleton.mp hw
    rw [offset_eof_scan, ← String.length_toList, ← Nat.zero_add source.toList.length]
    exact (hc.offset_bounds v hv).2
  exact List.Pairwise.forall_of_forall_of_flip (R := fun t u => t.offset = u.offset → t = u)
    (fun _ _ _ => rfl) (hpairwise.imp fun hlt heq => absurd heq hlt.ne)
    (hpairwise.imp fun hlt heq => absurd heq hlt.ne') ht hu h

namespace Grammar

theorem location_ne_empty (t : Token) : location t ≠ "" := by
  unfold location
  split
  · decide
  · exact fun h => absurd (String.append_eq_empty_iff.mp h).2 (by decide)

/-- No fault of the grammar is worded like one of a scan. -/
theorem SyntaxFault.message_ne_unterminated (fault : SyntaxFault) :
    fault.message ≠ "Unterminated string." := by
  cases fault <;> decide

theorem SyntaxError.isAt_iff {e : SyntaxError} {t : Token}
    (he : e.token ∈ (scan source).stream.toList) (ht : t ∈ (scan source).stream.toList) :
    e.diagnostic.IsAt t ↔ e.token = t := by
  constructor
  · intro h
    exact eq_of_offset_eq he ht (Int.ofNat_inj.mp (Option.some.inj h.2))
  · rintro rfl
    exact ⟨rfl, rfl⟩

end Grammar

/-- **The line that is shown** under a report, found by any lawful locator, is the line of the
report, with three exceptions: it is smaller by the newlines of a string that the report is located
at, by all newlines from the quote on if the report is about a string without an end, and by one at
the end of a source if the last character of that is a newline. -/
theorem line_eq_shownLine [Text.Locator] [Text.LawfulLocator] (h : source ≠ "")
    {d : Diagnostic} (hd : d ∈ (Grammar.parseSource source).diagnostics) :
    ∃ offset : Nat, d.offset = some (offset : Int) ∧ offset ≤ source.length ∧
      (∀ t ∈ (scan source).stream.toList, d.IsAt t → t.kind = .string →
        d.line = (Context.shownLine source offset + t.lexeme.toList.count '\n' : Nat)) ∧
      (d.message = "Unterminated string." →
        d.line = (Context.shownLine source offset + (source.toList.drop offset).count '\n' : Nat)) ∧
      (d.IsAt (scan source).stream.eof → source.toList.getLast? = some '\n' →
        d.line = (Context.shownLine source offset + 1 : Nat)) ∧
      ((∀ t ∈ (scan source).stream.toList, d.IsAt t → t.kind ≠ .string) →
        d.message ≠ "Unterminated string." →
        ¬(d.IsAt (scan source).stream.eof ∧ source.toList.getLast? = some '\n') →
        d.line = (Context.shownLine source offset : Nat)) := by
  have heof : (scan source).stream.eof ∈ (scan source).stream.toList :=
    List.mem_append_right _ (List.mem_singleton_self _)
  rcases List.mem_append.mp hd with hd | hd
  · obtain ⟨e, he, rfl⟩ := List.mem_map.mp hd
    obtain ⟨ho, hother, hstring⟩ := line_of_mem_errors he
    have hat (t : Token) : ¬e.diagnostic.IsAt t := fun ht => Grammar.location_ne_empty t ht.1.symm
    refine ⟨e.offset, rfl, ho.le, fun t _ ht => absurd ht (hat t), fun hm => ?_,
      fun ht => absurd ht (hat _), fun _ hm _ => ?_⟩
    · exact congrArg Nat.cast (hstring (ScanFault.message_eq_iff.mp hm))
    · exact congrArg Nat.cast (hother fun hf => hm (ScanFault.message_eq_iff.mpr hf))
  · obtain ⟨e, he, rfl⟩ := List.mem_map.mp hd
    have ht := Grammar.token_mem_of_mem_errors he
    have hm := e.fault.message_ne_unterminated
    rcases List.mem_append.mp ht with hin | hin
    · obtain ⟨ho, hline, hother⟩ := line_of_mem_tokens hin
      have hkind : e.token ≠ (scan source).stream.eof := fun heq =>
        (cut_scanChars source.toList).kind_ne_eof e.token hin (congrArg Token.kind heq)
      refine ⟨e.token.offset, rfl, ho.le, fun t hts hat _ => ?_, fun h => absurd h hm,
        fun hat _ => ?_, fun hs _ _ => ?_⟩
      · obtain rfl := (Grammar.SyntaxError.isAt_iff ht hts).mp hat
        exact congrArg Nat.cast hline
      · exact absurd ((Grammar.SyntaxError.isAt_iff ht heof).mp hat) hkind
      · exact congrArg Nat.cast (hother (hs e.token ht ⟨rfl, rfl⟩))
    · have hin := List.mem_singleton.mp hin
      have hat : e.diagnostic.IsAt (scan source).stream.eof :=
        (Grammar.SyntaxError.isAt_iff ht heof).mpr hin
      have hline : e.diagnostic.line = ((scan source).stream.eof.line : Nat) :=
        congrArg (fun t : Token => (t.line : Int)) hin
      rw [line_eof h] at hline
      refine ⟨source.length, ?_, le_refl _, fun t hts hat hk => ?_, fun h => absurd h hm,
        fun _ hl => by rw [hline, if_pos hl], fun _ _ hl => ?_⟩
      · rw [← offset_eof_scan, ← hin]
        rfl
      · obtain rfl := (Grammar.SyntaxError.isAt_iff ht hts).mp hat
        exact nomatch (congrArg Token.kind hin).symm.trans hk
      · rw [hline, if_neg fun hlast => hl ⟨hat, hlast⟩, Nat.add_zero]

/-- The string without an end begins on the second line, and its report is at the third one. -/
theorem line_eq_shownLine_unterminated :
    ("a\n\"b\n" ≠ "" ∧ (⟨3, "", "Unterminated string.", some 2⟩ : Diagnostic) ∈
      (Grammar.parseSource "a\n\"b\n").diagnostics) ∧
    ∃ offset : Nat, (some 2 : Option Int) = some (offset : Int) ∧
      (3 : Int) = (Context.shownLine "a\n\"b\n" offset +
        ("a\n\"b\n".toList.drop offset).count '\n' : Nat) := by
  have hd : (⟨3, "", "Unterminated string.", some 2⟩ : Diagnostic) ∈
      (Grammar.parseSource "a\n\"b\n").diagnostics := by decide +kernel
  obtain ⟨offset, ho, -, -, hline, -⟩ := line_eq_shownLine (by decide) hd
  exact ⟨⟨by decide, hd⟩, offset, ho, hline rfl⟩

-- at the end of this source, its only line is shown, which the newline ends
example : ((Grammar.parseSource "a\n").diagnostics.map Diagnostic.line,
    Context.shownLine "a\n" 2) = ([2], 1) := by
  decide +kernel

end Lox
