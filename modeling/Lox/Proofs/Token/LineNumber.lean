import Lox.Proofs.Token.Munch

/-!
# Line numbers

The counters of a scan are right behind each piece of a source. A piece is at the line to which the
scan has come when it has read the piece, so the line of a piece is that of its last character: what
stands before a piece and the piece itself hold all newlines that have been counted. No token but a
string has a newline in it, so for all other tokens the line of the last character is also the line
of the first one.

## Main definitions

* `Placed.StandsIn p line offset cs`: the piece stands in the source `cs`, which begins at that line
  and offset, where it says

## Main results

* `standsIn_of_mem_place`: the pieces of a source stand in it where they say
* `exists_of_mem_tokens`, `exists_of_mem_errors`: so do its tokens and its scan errors
* `scan_line_eq`: the line numbers of tokens and reports, in newlines of the source
-/

namespace Lox

/-- The piece stands in the source, which begins at that line and offset, where it says, and is the
right one to cut off there. -/
def Placed.StandsIn (p : Placed) (line offset : Nat) (cs : List Char) : Prop :=
  ∃ before rest, cs = before ++ (p.piece.text ++ rest) ∧ p.piece.Fits rest ∧
    p.offset = offset + before.length ∧
    p.line = line + before.count '\n' + p.piece.text.count '\n'

variable {cs : List Char}

/-! ## Pieces -/

/-- What stands in the rest of a source stands in the source. -/
theorem Placed.StandsIn.append {p : Placed} {line offset : Nat} {first : List Char}
    (h : p.StandsIn (line + first.count '\n') (offset + first.length) cs) :
    p.StandsIn line offset (first ++ cs) := by
  obtain ⟨before, rest, rfl, hf, ho, hl⟩ := h
  refine ⟨first ++ before, rest, (List.append_assoc ..).symm, hf, ?_, ?_⟩
  · rw [ho, List.length_append, Nat.add_assoc]
  · rw [hl, List.count_append, Nat.add_assoc line]

/-- The pieces of a source stand in it where they say. -/
theorem standsIn_of_mem_place {p : Placed} {s : Counters} (h : p ∈ (place s (pieces cs)).1) :
    p.StandsIn s.line s.current cs := by
  induction cs using pieces.induct generalizing s with
  | case1 => simp [pieces, place] at h
  | case2 c cs ih =>
    rw [pieces] at h
    rw [← text_piece c cs]
    have hcounted := counted_piece c cs
    rcases List.mem_cons.mp h with rfl | h
    · exact ⟨[], _, rfl, fits_piece c cs, rfl, hcounted s⟩
    · have hin := ih h
      rw [hcounted.after] at hin
      exact hin.append

/-! ## Tokens -/

theorem IsDigit.ne_newline {c : Char} (h : IsDigit c) : c ≠ '\n' := by
  rintro rfl
  exact absurd h (by decide)

theorem IsLetter.ne_newline {c : Char} (h : IsLetter c) : c ≠ '\n' := by
  rintro rfl
  unfold IsLetter at h
  exact absurd h (by decide)

theorem IsWord.newline_notMem (h : IsWord cs) : '\n' ∉ cs := by
  obtain ⟨first, rest, rfl, hf, hr⟩ := h
  intro hn
  rcases List.mem_cons.mp hn with rfl | hn
  · exact hf.ne_newline rfl
  · exact (hr _ hn).elim (fun h => h.ne_newline rfl) (fun h => h.ne_newline rfl)

theorem IsNumber.newline_notMem (h : IsNumber cs) : '\n' ∉ cs := by
  intro hn
  cases h with
  | whole h => exact (h.2 _ hn).ne_newline rfl
  | fraction h hf =>
    rcases List.mem_append.mp hn with hn | hn
    · exact (h.2 _ hn).ne_newline rfl
    · rcases List.mem_cons.mp hn with hn | hn
      · exact absurd hn (by decide)
      · exact (hf.2 _ hn).ne_newline rfl

/-- Only a string goes over the end of a line. -/
theorem Lexeme.newline_notMem {kind : Kind} {literal : Option Literal}
    (h : Lexeme kind cs literal) (hk : kind ≠ .string) : '\n' ∉ cs := by
  cases h with
  | symbol => cases kind <;> decide
  | keyword h => exact (isWord_of_mem_keywords h).newline_notMem
  | identifier h => exact h.newline_notMem
  | number h => exact h.newline_notMem
  | string => exact absurd rfl hk

/-- The tokens of a source stand in it where they say. -/
theorem exists_of_mem_tokens {t : Token} (h : t ∈ (scanChars cs).stream.tokens) :
    ∃ before rest, cs = before ++ (t.lexeme.toList ++ rest) ∧
      Lexeme t.kind t.lexeme.toList t.literal ∧ t.offset = before.length ∧
      t.line = 1 + before.count '\n' + t.lexeme.toList.count '\n' := by
  obtain ⟨p, hp, ht⟩ := List.mem_filterMap.mp h
  have hin : p.StandsIn 1 0 cs := standsIn_of_mem_place (s := .start) hp
  obtain ⟨before, rest, hcs, hf, ho, hl⟩ := hin
  obtain ⟨⟨kind, literal⟩, hkind, rfl⟩ := Option.map_eq_some_iff.mp ht
  have hlexeme : Lexeme kind p.piece.text literal := by
    obtain ⟨piece, _, _⟩ := p
    cases piece with
    | symbol | word | number | string =>
      obtain ⟨_, _, heq, hlex, -⟩ := hf
      obtain ⟨rfl, rfl⟩ := Prod.mk.inj (Option.some.inj (heq.symm.trans hkind))
      exact hlex
    | blank | newline | comment | unexpected | unterminated => cases hkind
  simp only [String.toList_ofList]
  exact ⟨before, rest, hcs, hlexeme, by rw [ho, Nat.zero_add], hl⟩

/-! ## Scan errors -/

/-- The errors of a source stand in it where they say: a character that begins nothing, at its own
line, or a quote that is not closed, at the line of the end. -/
theorem exists_of_mem_errors {e : ScanError} (h : e ∈ (scanChars cs).errors) :
    ∃ before c rest, cs = before ++ c :: rest ∧ e.offset = before.length ∧
      (e.fault = .unexpectedCharacter c ∧ e.line = 1 + before.count '\n' ∨
        e.fault = .unterminatedString ∧ c = '"' ∧ '"' ∉ rest ∧ e.line = 1 + cs.count '\n') := by
  obtain ⟨p, hp, he⟩ := List.mem_filterMap.mp h
  have hin : p.StandsIn 1 0 cs := standsIn_of_mem_place (s := .start) hp
  obtain ⟨before, rest, hcs, hf, ho, hl⟩ := hin
  obtain ⟨piece, line, offset⟩ := p
  rw [Nat.zero_add] at ho
  cases piece with
  | unexpected c =>
    obtain rfl := Option.some.inj he
    have hc : c ≠ '\n' := fun hc => hf.1 (by simp [hc])
    refine ⟨before, c, rest, hcs, ho, .inl ⟨rfl, ?_⟩⟩
    rwa [Piece.text, List.count_singleton, if_neg (by simpa using hc)] at hl
  | unterminated body =>
    obtain rfl := Option.some.inj he
    obtain ⟨hb, rfl⟩ := hf
    rw [Piece.text, List.append_nil] at hcs
    refine ⟨before, '"', body, hcs, ho, .inr ⟨rfl, rfl, hb, ?_⟩⟩
    rw [hcs, List.count_append, ← Nat.add_assoc]
    exact hl
  | blank | newline | comment | symbol | word | number | string => cases he

theorem Cut.offset_le_error {offset : Nat} {tokens : List Token} {errors : List ScanError}
    (h : Cut offset cs tokens errors) : ∀ e ∈ errors, offset ≤ e.offset := by
  induction h with
  | nil => simp
  | token _ _ _ _ ih | comment _ _ _ ih | blank _ _ ih =>
    exact fun e he => (Nat.le_add_right ..).trans (ih e he)
  | unexpected _ _ _ ho _ ih =>
    rw [List.forall_mem_cons]
    exact ⟨ho.ge, fun e he => (Nat.le_add_right ..).trans (ih e he)⟩
  | unterminated _ _ ho => simpa using ho.ge

/-- Behind the quote of a string without an end there is no token. -/
theorem Cut.token_end_le {offset : Nat} {tokens : List Token} {errors : List ScanError}
    (h : Cut offset cs tokens errors) :
    ∀ e ∈ errors, e.fault = .unterminatedString →
      ∀ t ∈ tokens, t.offset + t.lexeme.length ≤ e.offset := by
  induction h with
  | nil | unterminated => simp
  | comment _ _ _ ih | blank _ _ ih => exact ih
  | token _ _ ho h ih =>
    intro e he hf
    rw [List.forall_mem_cons]
    exact ⟨ho ▸ h.offset_le_error e he, ih e he hf⟩
  | unexpected _ _ hu _ _ ih =>
    intro e he hf
    rcases List.mem_cons.mp he with rfl | he
    · exact absurd (hu.symm.trans hf) (by simp)
    · exact ih e he hf

/-! ## Lines -/

/-- **Line numbers are exact.** The line of a token is one more than the newlines before its first
character, for a string before the character behind it, and the line of the token that ends a source
is one more than all newlines. A report of an unexpected character is at the line and the offset of
that character. A report of a string without an end is at the last line, at the offset of the quote
that opens it: no quote comes after it, and no token goes further than to it. -/
theorem scan_line_eq (source : String) :
    (∀ t ∈ (scan source).stream.toList, t.kind ≠ .string →
      t.line = 1 + (source.toList.take t.offset).count '\n') ∧
    (∀ t ∈ (scan source).stream.toList, t.kind = .string →
      t.line = 1 + (source.toList.take (t.offset + t.lexeme.length)).count '\n') ∧
    (scan source).stream.eof.line = 1 + source.toList.count '\n' ∧
    ∀ d ∈ (scan source).diagnostics, ∃ before c rest,
      source.toList = before ++ c :: rest ∧ d.offset = some (before.length : Int) ∧
      (d.message = "Unexpected character '" ++ String.singleton c ++ "'." ∧
          d.line = 1 + before.count '\n' ∨
        d.message = "Unterminated string." ∧ c = '"' ∧ '"' ∉ rest ∧
          (∀ t ∈ (scan source).stream.tokens, t.offset + t.lexeme.length ≤ before.length) ∧
          d.line = 1 + source.toList.count '\n') := by
  refine ⟨fun t ht hk => ?_, fun t ht hk => ?_, line_eof_scan source, fun d hd => ?_⟩
  · rcases List.mem_append.mp ht with ht | ht
    · obtain ⟨before, rest, hcs, hlex, ho, hl⟩ := exists_of_mem_tokens ht
      rw [hl, hcs, ho, List.take_left, List.count_eq_zero.mpr (hlex.newline_notMem hk),
        Nat.add_zero]
    · obtain rfl := List.mem_singleton.mp ht
      rw [line_eof_scan, offset_eof_scan, ← String.length_toList, List.take_length]
  · rcases List.mem_append.mp ht with ht | ht
    · obtain ⟨before, rest, hcs, -, ho, hl⟩ := exists_of_mem_tokens ht
      rw [hl, hcs, ho, ← String.length_toList, ← List.append_assoc, ← List.length_append,
        List.take_left, List.count_append, Nat.add_assoc]
    · obtain rfl := List.mem_singleton.mp ht
      exact nomatch hk
  · obtain ⟨e, he, rfl⟩ := List.mem_map.mp hd
    obtain ⟨before, c, rest, hcs, ho, hfault⟩ := exists_of_mem_errors he
    refine ⟨before, c, rest, hcs, congrArg (fun n : Nat => some (n : Int)) ho, ?_⟩
    rcases hfault with ⟨hf, hl⟩ | ⟨hf, hc, hr, hl⟩
    · exact .inl ⟨congrArg ScanFault.message hf, by simp [ScanError.diagnostic, hl]⟩
    · have hend := (cut_scanChars source.toList).token_end_le e he hf
      exact .inr ⟨congrArg ScanFault.message hf, hc, hr, fun t ht => ho ▸ hend t ht,
        by simp [ScanError.diagnostic, hl]⟩

-- a string is at the line on which it ends, and a comment does not hide the newline behind it
example : (scan "a // b\n\"c\nd\" e").stream.toList.map Token.line = [1, 3, 3, 3] := by
  decide +kernel

end Lox
