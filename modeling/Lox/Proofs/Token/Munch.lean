import Lox.Proofs.Token.Lexeme
import Lox.Proofs.Token.Seam
import Mathlib.Data.List.TakeWhile

/-!
# Maximal munch

A scan cuts a source into the longest tokens and comments there are, with blanks and errors
between them, and leaves nothing out. The cut is stated by itself, as a relation between a source,
the tokens and the errors in it, so nothing in it depends on how a scan looks for them.

## Main definitions

* `Cut offset cs tokens errors`: the source `cs`, at that offset, cut into tokens, comments, blanks
  and errors
* `Piece.Fits p rest`: the piece is the right one to cut off in front of the rest of the source

## Main results

* `fits_piece`: the piece at the beginning of a source fits there
* `Cut.tokens_pairwise`: tokens come in the order of their offsets
* `scan_cuts`: a scan is a cut of its source
-/

namespace Lox

/-- The source `cs`, which stands at the offset, cut into tokens, comments, blanks and errors. -/
inductive Cut : Nat → List Char → List Token → List ScanError → Prop
  | nil {offset : Nat} : Cut offset [] [] []
  /-- a token of the grammar, the longest text of the grammar at its offset -/
  | token {offset : Nat} {t : Token} {rest : List Char} {tokens : List Token}
      {errors : List ScanError} (hl : Lexeme t.kind t.lexeme.toList t.literal)
      (hm : IsLongest t.lexeme.toList rest) (ho : t.offset = offset)
      (h : Cut (offset + t.lexeme.length) rest tokens errors) :
      Cut offset (t.lexeme.toList ++ rest) (t :: tokens) errors
  /-- a comment, up to the next newline or the end -/
  | comment {offset : Nat} {cs rest : List Char} {tokens : List Token} {errors : List ScanError}
      (hc : IsComment cs) (he : ∀ c ∈ rest.head?, c = '\n')
      (h : Cut (offset + cs.length) rest tokens errors) : Cut offset (cs ++ rest) tokens errors
  | blank {offset : Nat} {c : Char} {rest : List Char} {tokens : List Token}
      {errors : List ScanError} (hc : c ∈ [' ', '\t', '\r', '\n'])
      (h : Cut (offset + 1) rest tokens errors) : Cut offset (c :: rest) tokens errors
  /-- a character at which no text of the grammar begins, with an error of its own -/
  | unexpected {offset : Nat} {c : Char} {e : ScanError} {rest : List Char} {tokens : List Token}
      {errors : List ScanError} (hc : c ∉ [' ', '\t', '\r', '\n', '"'])
      (hn : ∀ text, IsLexical text → ¬text <+: c :: rest)
      (hf : e.fault = .unexpectedCharacter c) (ho : e.offset = offset)
      (h : Cut (offset + 1) rest tokens errors) : Cut offset (c :: rest) tokens (e :: errors)
  /-- a quote with no other quote behind it, which ends the cut -/
  | unterminated {offset : Nat} {e : ScanError} {body : List Char} (hb : '"' ∉ body)
      (hf : e.fault = .unterminatedString) (ho : e.offset = offset) :
      Cut offset ('"' :: body) [] [e]

/-! ## Pieces that fit -/

/-- The piece is the right one to cut off in front of the rest of the source. -/
def Piece.Fits (p : Piece) (rest : List Char) : Prop :=
  match p with
  | .blank c => c ∈ [' ', '\t', '\r', '\n']
  | .newline => True
  | .comment body => '\n' ∉ body ∧ ∀ c ∈ rest.head?, c = '\n'
  | .unexpected c =>
    c ∉ [' ', '\t', '\r', '\n', '"'] ∧ ∀ text, IsLexical text → ¬text <+: c :: rest
  | .unterminated body => '"' ∉ body ∧ rest = []
  | p => ∃ kind literal, p.token? = some (kind, literal) ∧ Lexeme kind p.text literal ∧
      IsLongest p.text rest

/-- What is longest is decided by what can stand behind the first character. -/
theorem isLongest_cons {c : Char} {cs rest : List Char}
    (h : ∀ other, AfterHead c other → other <+: cs ++ rest → other.length ≤ cs.length) :
    IsLongest (c :: cs) rest := by
  intro other hl hp
  cases other with
  | nil => exact Nat.zero_le _
  | cons d other =>
    rw [List.cons_append, List.cons_prefix_cons] at hp
    obtain ⟨rfl, hp⟩ := hp
    exact Nat.succ_le_succ (h other hl.afterHead hp)

theorem length_le_takeWhile {p : Char → Bool} {cs ds : List Char} (h : cs <+: ds)
    (hc : ∀ c ∈ cs, p c = true) : cs.length ≤ (ds.takeWhile p).length := by
  obtain ⟨rest, rfl⟩ := h
  rw [List.takeWhile_append_of_pos hc, List.length_append]
  exact Nat.le_add_right _ _

theorem fits_single {c : Char} {kind : Kind} (hc : singleKind? c = some kind) (cs : List Char) :
    (Piece.symbol kind).Fits cs := by
  have ht := singleKind?_text hc
  refine ⟨kind, none, rfl, .symbol (by simp [ht]), ?_⟩
  rw [Piece.text, ht]
  exact isLongest_cons fun other hl _ => by simp [hl.eq_nil_of_single hc]

theorem fits_operatorPiece {c : Char} {k l : Kind} (hc : operatorKinds? c = some (k, l))
    (cs : List Char) : (operatorPiece k l cs).1.Fits (operatorPiece k l cs).2 := by
  obtain ⟨hk, hl⟩ := operatorKinds?_text hc
  unfold operatorPiece
  split
  · refine ⟨l, none, rfl, .symbol (by simp [hl]), ?_⟩
    rw [Piece.text, hl]
    refine isLongest_cons fun other ha _ => ?_
    obtain rfl | rfl := ha.of_operator hc <;> simp
  · rename_i hne
    refine ⟨k, none, rfl, .symbol (by simp [hk]), ?_⟩
    rw [Piece.text, hk]
    refine isLongest_cons fun other ha hp => ?_
    obtain rfl | rfl := ha.of_operator hc
    · exact Nat.le_refl 0
    · obtain ⟨rest, rfl⟩ := hp
      exact absurd rfl (hne rest)

theorem fits_slashPiece (cs : List Char) : (slashPiece cs).1.Fits (slashPiece cs).2 := by
  unfold slashPiece
  split
  · rename_i cs
    refine ⟨fun h => by simpa using List.mem_takeWhile_imp h, fun c hc => ?_⟩
    have hd := List.head?_dropWhile_not (fun c => decide (c ≠ '\n')) cs
    rw [Option.mem_def.mp hc] at hd
    simpa using hd
  · rename_i hne
    refine ⟨.slash, none, rfl, .symbol (by simp [Kind.symbolText]), ?_⟩
    refine isLongest_cons fun other ha hp => ?_
    obtain rfl | ⟨body, rfl⟩ := ha.of_slash
    · exact Nat.le_refl 0
    · obtain ⟨rest, rfl⟩ := hp
      exact absurd rfl (hne (body ++ rest))

theorem fits_stringPiece (cs : List Char) : (stringPiece cs).1.Fits (stringPiece cs).2 := by
  have ht := text_stringPiece cs
  unfold stringPiece at ht ⊢
  cases hd : cs.dropWhile fun c => decide (c ≠ '"') with
  | nil => exact ⟨fun h => by simpa using List.dropWhile_eq_nil_iff.mp hd _ h, rfl⟩
  | cons q rest =>
    have hcs : cs.takeWhile (fun c => decide (c ≠ '"')) ++ ['"'] ++ rest = cs := by
      rw [hd] at ht
      exact (List.cons.inj ht).2
    refine ⟨_, _, rfl, .string fun h => by simpa using List.mem_takeWhile_imp h, ?_⟩
    refine isLongest_cons fun other ha hp => ?_
    obtain ⟨body, rfl, hb⟩ := ha.of_quote
    rw [hcs] at hp
    have hle := length_le_takeWhile (p := fun c => decide (c ≠ '"'))
      ((List.prefix_append body ['"']).trans hp)
      fun c hc => decide_eq_true fun h => hb (h ▸ hc)
    rw [List.length_append, List.length_append]
    exact Nat.succ_le_succ hle

/-! ## Numbers -/

theorem isDigits_takeWhile {c : Char} (hc : c.isDigit = true) (cs : List Char) :
    IsDigits ((c :: cs).takeWhile Char.isDigit) :=
  ⟨by simp [hc], fun _ hd => isDigit_eq_true_iff.mp (List.mem_takeWhile_imp hd)⟩

theorem digitsValue_eq (ds : List Char) : Piece.digitsValue ds = Nat.ofDigitChars 10 ds 0 := by
  unfold Piece.digitsValue Nat.ofDigitChars
  simp only [Nat.mul_comm]

theorem ne_point_of_isDigit {ds : List Char} (h : ∀ c ∈ ds, IsDigit c) :
    ∀ c ∈ ds, decide (c ≠ '.') = true :=
  fun c hc => decide_eq_true fun hp => absurd (h c hc) (hp ▸ by decide)

/-- The digits before and after the point are those of the text, and the point is as far left. -/
theorem numberValue_eq_decimalValue {whole fraction : List Char} (hw : ∀ c ∈ whole, IsDigit c)
    (hf : ∀ c ∈ fraction, IsDigit c) :
    Piece.numberValue whole fraction = decimalValue (Piece.number whole fraction).text := by
  have hw := ne_point_of_isDigit hw
  have hf := ne_point_of_isDigit hf
  unfold Piece.numberValue decimalValue
  rw [digitsValue_eq]
  cases fraction with
  | nil =>
    rw [Piece.text, List.filter_eq_self.mpr hw, List.dropWhile_eq_nil_iff.mpr hw, List.append_nil]
    rfl
  | cons d ds =>
    rw [Piece.text, List.filter_append, List.filter_eq_self.mpr hw,
      List.filter_cons_of_neg (by decide), List.filter_eq_self.mpr hf,
      List.dropWhile_append_of_pos hw, List.dropWhile_cons_of_neg (by decide)]
    rfl

theorem isNumber_text {whole fraction : List Char} (hw : IsDigits whole)
    (hf : ∀ c ∈ fraction, IsDigit c) : IsNumber (Piece.number whole fraction).text := by
  cases fraction with
  | nil => exact .whole hw
  | cons d ds => exact .fraction hw ⟨List.cons_ne_nil d ds, hf⟩

theorem length_whole_le_text (whole fraction : List Char) :
    whole.length ≤ (Piece.number whole fraction).text.length := by
  cases fraction with
  | nil => exact Nat.le_refl _
  | cons d ds =>
    rw [Piece.text, List.length_append]
    exact Nat.le_add_right _ _

/-- What `numberPiece` cuts off are digits, before a point and behind it. -/
theorem numberPiece_eq (cs : List Char) :
    ∃ fraction rest, numberPiece cs = (.number (cs.takeWhile Char.isDigit) fraction, rest) ∧
      ∀ c ∈ fraction, c.isDigit = true := by
  unfold numberPiece
  simp only
  split
  · rename_i d rest _
    split
    · rename_i hd
      refine ⟨_, _, rfl, fun c hc => ?_⟩
      obtain rfl | hc := List.mem_cons.mp hc
      · exact hd
      · exact List.mem_takeWhile_imp hc
    · exact ⟨_, _, rfl, by simp⟩
  · exact ⟨_, _, rfl, by simp⟩

/-- Behind the digits and a point, all digits that there are belong to the number. -/
theorem numberPiece_point {ds es : List Char} (hd : ∀ c ∈ ds, c.isDigit = true)
    (he : es ≠ []) (hes : ∀ c ∈ es, c.isDigit = true) (rest : List Char) :
    (numberPiece (ds ++ '.' :: (es ++ rest))).1 =
      .number ds (es ++ rest.takeWhile Char.isDigit) := by
  obtain ⟨e, es, rfl⟩ := List.exists_cons_of_ne_nil he
  have hes := List.forall_mem_cons.mp hes
  unfold numberPiece
  rw [takeWhile_append_stop (by decide), dropWhile_append_stop (by decide),
    List.takeWhile_eq_self_iff.mpr hd, List.dropWhile_eq_nil_iff.mpr hd]
  simp only [List.nil_append, List.cons_append, hes.1, if_true]
  rw [List.takeWhile_append_of_pos hes.2]

theorem length_le_text_numberPiece {cs other : List Char} (h : IsNumber other)
    (hp : other <+: cs) : other.length ≤ (numberPiece cs).1.text.length := by
  have hdigits {ds : List Char} (h : IsDigits ds) : ∀ c ∈ ds, c.isDigit = true :=
    fun c hc => isDigit_eq_true_iff.mpr (h.2 c hc)
  cases h with
  | whole h =>
    obtain ⟨fraction, rest, hn, -⟩ := numberPiece_eq cs
    rw [hn]
    exact (length_le_takeWhile hp (hdigits h)).trans (length_whole_le_text _ fraction)
  | @fraction ds es h hf =>
    obtain ⟨rest, rfl⟩ := hp
    rw [List.append_assoc, List.cons_append, numberPiece_point (hdigits h) hf.1 (hdigits hf)]
    obtain ⟨e, es, rfl⟩ := List.exists_cons_of_ne_nil hf.1
    simp only [Piece.text, List.cons_append, List.length_append, List.length_cons]
    omega

theorem fits_numberPiece {c : Char} (hc : c.isDigit = true) (cs : List Char) :
    (numberPiece (c :: cs)).1.Fits (numberPiece (c :: cs)).2 := by
  have ht := text_numberPiece (c :: cs)
  have hlongest := @length_le_text_numberPiece (c :: cs)
  obtain ⟨fraction, rest, hn, hf⟩ := numberPiece_eq (c :: cs)
  have hw := isDigits_takeWhile hc cs
  have hf := fun c hc => isDigit_eq_true_iff.mp (hf c hc)
  rw [hn] at ht hlongest ⊢
  refine ⟨.number, _, rfl, ?_, fun other hl hp => ?_⟩
  · rw [numberValue_eq_decimalValue hw.2 hf]
    exact .number (isNumber_text hw hf)
  · rw [ht] at hp
    cases other with
    | nil => exact Nat.zero_le _
    | cons d other =>
      obtain ⟨rfl, -⟩ := List.cons_prefix_cons.mp hp
      exact hlongest (hl.afterHead.of_digit (isDigit_eq_true_iff.mp hc)) hp

/-! ## The piece at the beginning of a source -/

theorem lexeme_wordKind {cs : List Char} (h : IsWord cs) : Lexeme (Piece.wordKind cs) cs none := by
  unfold Piece.wordKind
  cases hk : keywords.lookup (String.ofList cs) with
  | none =>
    refine .identifier h fun kind hm => ?_
    simpa using List.lookup_eq_none_iff.mp hk _ hm
  | some kind =>
    obtain ⟨_, _, hs, -⟩ := List.lookup_eq_some_iff.mp hk
    have hm : (String.ofList cs, kind) ∈ keywords := by simp [hs]
    simpa using Lexeme.keyword hm

theorem fits_word {c : Char} (hc : IsLetter c) (cs : List Char) :
    (Piece.word (c :: cs.takeWhile isWordPart)).Fits (cs.dropWhile isWordPart) := by
  refine ⟨_, none, rfl, lexeme_wordKind ⟨c, _, rfl, hc, fun d hd => ?_⟩,
    isLongest_cons fun other ha hp => ?_⟩
  · exact isWordPart_eq_true_iff.mp (List.mem_takeWhile_imp hd)
  · rw [List.takeWhile_append_dropWhile] at hp
    exact length_le_takeWhile hp fun d hd => isWordPart_eq_true_iff.mpr (ha.of_letter hc d hd)

/-- **The piece at the beginning of a source** fits there. -/
theorem fits_piece (c : Char) (cs : List Char) : (piece c cs).1.Fits (piece c cs).2 := by
  unfold piece
  split
  · rename_i hc
    exact fits_single hc cs
  split
  · rename_i hc
    exact fits_operatorPiece hc cs
  split
  · exact fits_slashPiece cs
  split
  · rename_i hc
    exact List.mem_append_left ['\n'] (isSpacing_eq_true_iff.mp hc)
  split
  · trivial
  split
  · exact fits_stringPiece cs
  split
  · rename_i hc
    exact fits_numberPiece hc cs
  split
  · rename_i hc
    exact fits_word (isWordStart_eq_true_iff.mp hc) cs
  · -- all that a token or a comment can begin with has been tried
    rename_i _ hs _ ho hslash hspacing hnewline hquote hdigit hletter
    rw [isSpacing_eq_true_iff] at hspacing
    refine ⟨by simp_all, fun text hl hp => ?_⟩
    cases text with
    | nil => exact hl.ne_nil rfl
    | cons d other =>
      obtain ⟨rfl, -⟩ := List.cons_prefix_cons.mp hp
      cases hl.afterHead with
      | single h => exact hs _ h
      | operator h => exact ho _ _ h
      | slash h | comment h => exact hslash h
      | string h => exact hquote h
      | number h => exact hdigit (isDigit_eq_true_iff.mpr h)
      | word h => exact hletter (isWordStart_eq_true_iff.mpr h)

/-! ## The cut that a scan makes -/

/-- Nothing is cut out of an empty source. -/
theorem Cut.eq_nil {offset : Nat} {tokens : List Token} {errors : List ScanError}
    (h : Cut offset [] tokens errors) : tokens = [] ∧ errors = [] := by
  generalize hs : ([] : List Char) = cs at h
  cases h with
  | nil => exact ⟨rfl, rfl⟩
  | token hl => exact absurd (List.append_eq_nil_iff.mp hs.symm).1 hl.ne_nil
  | comment hc => exact absurd (List.append_eq_nil_iff.mp hs.symm).1 (IsLexical.ne_nil (.inr hc))
  | blank | unexpected | unterminated => exact absurd hs (by simp)

/-- A piece that fits, cut off in front of a source that is cut. -/
theorem Piece.Fits.cut {p : Piece} {rest : List Char} (hp : p.Fits rest) (line offset : Nat)
    {tokens : List Token} {errors : List ScanError}
    (h : Cut (offset + p.text.length) rest tokens errors) :
    Cut offset (p.text ++ rest) ([⟨p, line, offset⟩].filterMap Placed.token? ++ tokens)
      ([⟨p, line, offset⟩].filterMap Placed.error? ++ errors) := by
  have htoken {kind : Kind} {literal : Option Literal} (ht : p.token? = some (kind, literal))
      (hl : Lexeme kind p.text literal) (hm : IsLongest p.text rest) :
      Cut offset (p.text ++ rest)
        (⟨kind, String.ofList p.text, literal, line, offset⟩ :: tokens) errors := by
    rw [← String.toList_ofList (l := p.text)] at hl hm
    have hc := Cut.token (t := ⟨kind, String.ofList p.text, literal, line, offset⟩) hl hm rfl
      (by simpa using h)
    rwa [String.toList_ofList] at hc
  cases p with
  | symbol | word | number | string =>
    obtain ⟨kind, literal, ht, hl, hm⟩ := hp
    obtain ⟨rfl, rfl⟩ := Prod.mk.inj (Option.some.inj ht)
    exact htoken ht hl hm
  | blank c => exact .blank hp h
  | newline => exact .blank (by simp) h
  | comment body => exact .comment ⟨body, rfl, hp.1⟩ hp.2 h
  | unexpected c => exact .unexpected hp.1 hp.2 rfl rfl h
  | unterminated body =>
    obtain ⟨hb, rfl⟩ := hp
    obtain ⟨rfl, rfl⟩ := h.eq_nil
    rw [List.append_nil]
    exact .unterminated hb rfl rfl

theorem cut_place (s : Counters) (cs : List Char) :
    Cut s.current cs ((place s (pieces cs)).1.filterMap Placed.token?)
      ((place s (pieces cs)).1.filterMap Placed.error?) := by
  induction cs using pieces.induct generalizing s with
  | case1 => simpa [pieces, place] using Cut.nil
  | case2 c cs ih =>
    have hrest := ih (s.after (piece c cs).1)
    rw [(counted_piece c cs).after s] at hrest
    have hc := (fits_piece c cs).cut (s.after (piece c cs).1).line s.current hrest
    rw [text_piece, ← List.filterMap_append, ← List.filterMap_append,
      ← (counted_piece c cs).after s] at hc
    rwa [pieces]

theorem cut_scanChars (cs : List Char) :
    Cut 0 cs (scanChars cs).stream.tokens (scanChars cs).errors :=
  cut_place .start cs

/-- The tokens that are cut out of a source stand in it. -/
theorem Cut.offset_bounds {offset : Nat} {cs : List Char} {tokens : List Token}
    {errors : List ScanError} (h : Cut offset cs tokens errors) :
    ∀ t ∈ tokens, offset ≤ t.offset ∧ t.offset < offset + cs.length := by
  induction h with
  | nil | unterminated => simp
  | @token offset t rest tokens errors hl hm ho h ih =>
    have hpos := List.length_pos_iff.mpr hl.ne_nil
    rw [← String.length_toList] at ih
    rw [List.forall_mem_cons, List.length_append]
    refine ⟨by omega, fun u hu => ?_⟩
    have := ih u hu
    omega
  | comment _ _ _ ih =>
    intro t ht
    have := ih t ht
    rw [List.length_append]
    omega
  | blank _ _ ih | unexpected _ _ _ _ _ ih =>
    intro t ht
    have := ih t ht
    rw [List.length_cons]
    omega

/-- Tokens come in the order of their offsets. -/
theorem Cut.tokens_pairwise {offset : Nat} {cs : List Char} {tokens : List Token}
    {errors : List ScanError} (h : Cut offset cs tokens errors) :
    tokens.Pairwise (·.offset < ·.offset) := by
  induction h with
  | nil | unterminated => exact .nil
  | comment _ _ _ ih | blank _ _ ih | unexpected _ _ _ _ _ ih => exact ih
  | @token offset t rest tokens errors hl hm ho h ih =>
    have hpos := List.length_pos_iff.mpr hl.ne_nil
    rw [String.length_toList] at hpos
    refine .cons (fun u hu => ?_) ih
    have := h.offset_bounds u hu
    omega

theorem Lexeme.kind_ne_eof {kind : Kind} {cs : List Char} {literal : Option Literal}
    (h : Lexeme kind cs literal) : kind ≠ .eof := by
  rintro rfl
  cases h with
  | symbol h => exact h rfl
  | keyword h => simp [keywords] at h

theorem Cut.kind_ne_eof {offset : Nat} {cs : List Char} {tokens : List Token}
    {errors : List ScanError} (h : Cut offset cs tokens errors) :
    ∀ t ∈ tokens, t.kind ≠ .eof := by
  induction h with
  | nil | unterminated => simp
  | comment _ _ _ ih | blank _ _ ih | unexpected _ _ _ _ _ ih => exact ih
  | token hl _ _ _ ih => exact List.forall_mem_cons.mpr ⟨hl.kind_ne_eof, ih⟩

/-- **A scan cuts its source by maximal munch.** Every character of a source belongs to a token,
the longest text of the grammar at its offset, with the kind and the literal that the grammar gives
it, or else to a comment, to the blanks, or to an error that is reported at its offset. The last
token is the only one of kind `eof`, and it stands behind the last character. -/
theorem scan_cuts (source : String) :
    Cut 0 source.toList (scan source).stream.tokens (scan source).errors ∧
      (∀ t ∈ (scan source).stream.tokens, t.kind ≠ .eof) ∧
      (scan source).stream.eof.kind = .eof ∧ (scan source).stream.eof.lexeme = "" ∧
      (scan source).stream.eof.literal = none ∧
      (scan source).stream.eof.offset = source.length := by
  have hc : Cut 0 source.toList (scan source).stream.tokens (scan source).errors :=
    cut_scanChars source.toList
  exact ⟨hc, hc.kind_ne_eof, rfl, rfl, rfl, offset_eof_scan source⟩

-- a point belongs to a number only with a digit behind it
example : (scan "1.!==").stream.tokens.map Token.kind = [.number, .dot, .bangEqual, .equal] := by
  decide +kernel

end Lox
