import Lox.Proofs.Token.Munch
import Mathlib.Data.List.Basic

/-!
# Sources with other layout

The lexemes of a source, with one space between each two of them, are a source again: its tokens are
those of the first one, up to their places, and it has no errors. So a space is enough to keep any
two tokens apart, and no token has a space in it that would cut it, but strings, which end at their
quote.

## Main definitions

* `IsGap cs`: the text is empty or begins with a space
* `Piece.StandsAlone p`: the piece is cut off wherever its text stands in front of a gap
* `Token.reading t`: what there is to read of a token, which is all but its place
* `respaced source`: the lexemes of a source, with spaces between them

## Main results

* `isCutBy_piece`: a token that is cut off in front of something is cut off in front of any gap
* `pieces_intercalate`: spaces keep pieces apart that stand alone
* `scan_respaced`: the tokens of the lexemes of a source
-/

namespace Lox

/-! ## Tokens in front of gaps -/

/-- The text is empty, or it begins with a space. -/
def IsGap (cs : List Char) : Prop :=
  ∀ c ∈ cs.head?, c = ' '

section

variable {p : Char → Bool} {cs rest : List Char} (hr : IsGap rest) (hp : p ' ' = false)
  (hcs : ∀ c ∈ cs, p c = true)

include hr hp hcs

theorem IsGap.takeWhile : (cs ++ rest).takeWhile p = cs := by
  rw [List.takeWhile_append_of_pos hcs]
  cases rest with
  | nil => simp
  | cons c rest =>
    obtain rfl := hr c rfl
    simp [hp]

theorem IsGap.dropWhile : (cs ++ rest).dropWhile p = rest := by
  rw [List.dropWhile_append_of_pos hcs]
  cases rest with
  | nil => rfl
  | cons c rest =>
    obtain rfl := hr c rfl
    simp [hp]

end

variable {rest : List Char}

/-- The cut takes the piece, whose first character is `c`, off in front of any gap. -/
def Piece.IsCutBy (p : Piece) (c : Char) (cut : List Char → Piece × List Char) : Prop :=
  ∃ cs, p.text = c :: cs ∧ ∀ rest, IsGap rest → cut (cs ++ rest) = (p, rest)

/-- In front of a gap, nothing comes after a slash or an operator character. -/
theorem operatorPiece_gap (k l : Kind) (hr : IsGap rest) :
    operatorPiece k l rest = (.symbol k, rest) := by
  cases rest with
  | nil => rfl
  | cons c rest =>
    obtain rfl := hr c rfl
    rfl

theorem slashPiece_gap (hr : IsGap rest) : slashPiece rest = (.symbol .slash, rest) := by
  cases rest with
  | nil => rfl
  | cons c rest =>
    obtain rfl := hr c rfl
    rfl

theorem isCutBy_operatorPiece {c : Char} {k l : Kind} (hk : k.symbolText = [c])
    (hl : l.symbolText = [c, '=']) (cs : List Char) :
    (operatorPiece k l cs).1.IsCutBy c (operatorPiece k l) := by
  have hcut : (operatorPiece k l cs).1 = .symbol l ∨ (operatorPiece k l cs).1 = .symbol k := by
    unfold operatorPiece
    split
    · exact .inl rfl
    · exact .inr rfl
  obtain h | h := hcut
  · exact ⟨['='], h ▸ hl, fun rest hr => h ▸ rfl⟩
  · exact ⟨[], h ▸ hk, fun rest hr => h ▸ operatorPiece_gap k l hr⟩

theorem isCutBy_slashPiece {cs : List Char} (h : (slashPiece cs).1.token?.isSome) :
    (slashPiece cs).1.IsCutBy '/' slashPiece := by
  have hcut : (slashPiece cs).1 = .symbol .slash := by
    unfold slashPiece at h ⊢
    split
    · exact absurd h (by simp [Piece.token?])
    · rfl
  exact hcut ▸ ⟨[], rfl, fun rest hr => slashPiece_gap hr⟩

theorem isCutBy_stringPiece {cs : List Char} (h : (stringPiece cs).1.token?.isSome) :
    (stringPiece cs).1.IsCutBy '"' stringPiece := by
  obtain ⟨body, hb, hcut⟩ : ∃ body, (∀ c ∈ body, decide (c ≠ '"') = true) ∧
      (stringPiece cs).1 = .string body := by
    unfold stringPiece at h ⊢
    split
    · rename_i hd
      rw [hd] at h
      exact absurd h (by simp [Piece.token?])
    · exact ⟨_, fun c hc => List.mem_takeWhile_imp (p := fun c => decide (c ≠ '"')) hc, rfl⟩
  rw [hcut]
  refine ⟨body ++ ['"'], rfl, fun rest _ => ?_⟩
  unfold stringPiece
  rw [List.append_assoc, List.dropWhile_append_of_pos hb, List.takeWhile_append_of_pos hb]
  simp

/-- Where digits end at a gap, the number does, and so it does behind a point. -/
theorem numberPiece_gap {whole fraction : List Char} (hw : ∀ c ∈ whole, c.isDigit = true)
    (hf : ∀ c ∈ fraction, c.isDigit = true) (hr : IsGap rest) :
    numberPiece ((Piece.number whole fraction).text ++ rest) = (.number whole fraction, rest) := by
  unfold numberPiece
  cases fraction with
  | nil =>
    rw [Piece.text, hr.takeWhile (by decide) hw, hr.dropWhile (by decide) hw]
    cases rest with
    | nil => rfl
    | cons c rest =>
      obtain rfl := hr c rfl
      rfl
  | cons d ds =>
    have hf := List.forall_mem_cons.mp hf
    rw [Piece.text, List.append_assoc, List.cons_append, takeWhile_append_stop (by decide),
      dropWhile_append_stop (by decide), List.takeWhile_eq_self_iff.mpr hw,
      List.dropWhile_eq_nil_iff.mpr hw]
    simp only [List.nil_append, List.cons_append, hf.1, if_true]
    rw [hr.takeWhile (by decide) hf.2, hr.dropWhile (by decide) hf.2]

theorem isCutBy_numberPiece {c : Char} (hc : c.isDigit) (cs : List Char) :
    (numberPiece (c :: cs)).1.IsCutBy c fun cs => numberPiece (c :: cs) := by
  obtain ⟨fraction, rest, hn, hf⟩ := numberPiece_eq (c :: cs)
  have hw : ∀ d ∈ (c :: cs).takeWhile Char.isDigit, d.isDigit = true :=
    fun d hd => List.mem_takeWhile_imp hd
  rw [hn]
  have htext : ∃ es, (Piece.number ((c :: cs).takeWhile Char.isDigit) fraction).text = c :: es := by
    cases fraction <;> simp [Piece.text, hc]
  obtain ⟨es, htext⟩ := htext
  refine ⟨es, htext, fun rest hr => ?_⟩
  show numberPiece (c :: es ++ rest) = _
  rw [← htext]
  exact numberPiece_gap hw hf hr

theorem isCutBy_word (c : Char) (cs : List Char) :
    (Piece.word (c :: cs.takeWhile isWordPart)).IsCutBy c fun cs =>
      (.word (c :: cs.takeWhile isWordPart), cs.dropWhile isWordPart) := by
  have hcs : ∀ d ∈ cs.takeWhile isWordPart, isWordPart d = true :=
    fun d hd => List.mem_takeWhile_imp hd
  refine ⟨cs.takeWhile isWordPart, rfl, fun rest hr => ?_⟩
  dsimp only
  rw [hr.takeWhile (by decide) hcs, hr.dropWhile (by decide) hcs]

/-- **A token that is cut off** in front of something is cut off in front of any gap. -/
theorem isCutBy_piece {c : Char} {cs : List Char} (h : (piece c cs).1.token?.isSome) :
    (piece c cs).1.IsCutBy c fun cs => piece c cs := by
  unfold piece at h ⊢
  split at h
  · rename_i hk
    exact ⟨[], singleKind?_text hk, fun rest _ => rfl⟩
  split at h
  · rename_i hk _ _ _ hkl
    obtain ⟨hk, hl⟩ := operatorKinds?_text hkl
    exact isCutBy_operatorPiece hk hl cs
  split at h
  · rename_i hslash
    subst hslash
    exact isCutBy_slashPiece h
  split at h
  · exact absurd h (by simp [Piece.token?])
  split at h
  · exact absurd h (by simp [Piece.token?])
  split at h
  · rename_i hq
    subst hq
    exact isCutBy_stringPiece h
  split at h
  · rename_i hslash hspacing hnewline hquote hd
    simp only [hslash, hspacing, hnewline, hquote, hd, if_true, if_false]
    exact isCutBy_numberPiece hd cs
  split at h
  · rename_i hslash hspacing hnewline hquote hd hs
    simp only [hslash, hspacing, hnewline, hquote, hd, hs, if_true, if_false]
    exact isCutBy_word c cs
  · exact absurd h (by simp [Piece.token?])

/-! ## Sources with spaces between their tokens -/

/-- The piece is cut off in front of any gap. -/
def Piece.StandsAlone (p : Piece) : Prop :=
  ∃ c, p.IsCutBy c (piece c)

theorem standsAlone_of_mem_pieces {cs : List Char} {p : Piece} (h : p ∈ pieces cs)
    (ht : p.token?.isSome) : p.StandsAlone := by
  induction cs using pieces.induct with
  | case1 => simp [pieces] at h
  | case2 c cs ih =>
    rw [pieces] at h
    obtain rfl | h := List.mem_cons.mp h
    · exact ⟨c, isCutBy_piece ht⟩
    · exact ih h

theorem Piece.StandsAlone.pieces_append {p : Piece} (h : p.StandsAlone) (hr : IsGap rest) :
    pieces (p.text ++ rest) = p :: pieces rest := by
  obtain ⟨c, cs, ht, hcut⟩ := h
  rw [ht, List.cons_append, pieces, hcut rest hr]

/-- **Spaces between pieces** keep them apart. -/
theorem pieces_intercalate {ps : List Piece} (h : ∀ p ∈ ps, p.StandsAlone) :
    pieces ([' '].intercalate (ps.map Piece.text)) = ps.intersperse (.blank ' ') := by
  induction ps with
  | nil => simp [pieces]
  | cons p ps ih =>
    rw [List.forall_mem_cons] at h
    cases ps with
    | nil =>
      have hnil : pieces (p.text ++ []) = p :: pieces [] := h.1.pieces_append (by simp [IsGap])
      rw [List.append_nil, pieces] at hnil
      simpa using hnil
    | cons q ps =>
      rw [List.map_cons, List.map_cons, List.intercalate_cons_cons, ← List.map_cons,
        List.append_assoc, h.1.pieces_append (by simp [IsGap]), List.intersperse_cons_cons,
        ← ih h.2, List.singleton_append, pieces]
      rfl

/-! ## What there is to read of a source -/

/-- What there is to read of a token, which is all but its place. -/
def Token.reading (t : Token) : Kind × String × Option Literal :=
  (t.kind, t.lexeme, t.literal)

/-- What there is to read of the token that a piece is. -/
def Piece.reading? (p : Piece) : Option (Kind × String × Option Literal) :=
  p.token?.map fun (kind, literal) => (kind, String.ofList p.text, literal)

/-- What is wrong with a piece. -/
def Piece.fault? : Piece → Option ScanFault
  | unexpected c => some (.unexpectedCharacter c)
  | unterminated _ => some .unterminatedString
  | _ => none

theorem filterMap_piece_place {β : Type} (f : Piece → Option β) (s : Counters)
    (ps : List Piece) : (place s ps).1.filterMap (fun p => f p.piece) = ps.filterMap f := by
  show (place s ps).1.filterMap (f ∘ Placed.piece) = _
  rw [← List.filterMap_map, map_piece_place]

theorem readings_scanChars (cs : List Char) :
    (scanChars cs).stream.tokens.map Token.reading = (pieces cs).filterMap Piece.reading? := by
  have hread (p : Placed) : p.token?.map Token.reading = p.piece.reading? := by
    unfold Placed.token? Piece.reading?
    cases p.piece.token? <;> rfl
  simp only [scanChars, List.map_filterMap, hread, filterMap_piece_place]

theorem faults_scanChars (cs : List Char) :
    (scanChars cs).errors.map ScanError.fault = (pieces cs).filterMap Piece.fault? := by
  have hfault (p : Placed) : p.error?.map ScanError.fault = p.piece.fault? := by
    obtain ⟨piece, line, offset⟩ := p
    cases piece <;> rfl
  simp only [scanChars, List.map_filterMap, hfault, filterMap_piece_place]

/-! ## The lexemes of a source -/

theorem filterMap_intersperse {α β : Type} {f : α → Option β} {sep : α} (h : f sep = none)
    (as : List α) : (as.intersperse sep).filterMap f = as.filterMap f := by
  induction as with
  | nil => rfl
  | cons a as ih =>
    cases as with
    | nil => rfl
    | cons b as =>
      rw [List.intersperse_cons_cons, List.filterMap_cons, List.filterMap_cons_none h, ih,
        List.filterMap_cons (a := a)]

/-- The pieces of a source that are tokens. -/
def tokenPieces (cs : List Char) : List Piece :=
  (pieces cs).filter (·.token?.isSome)

/-- The source in which the tokens of a source have one space between each two of them, and
nothing else is left. -/
def respaced (source : String) : String :=
  " ".intercalate (((scan source).stream.toList.filter (·.kind ≠ .eof)).map Token.lexeme)

theorem readings_tokenPieces (cs : List Char) :
    (tokenPieces cs).filterMap Piece.reading? = (pieces cs).filterMap Piece.reading? := by
  rw [tokenPieces, List.filterMap_filter]
  refine List.filterMap_congr fun p _ => ?_
  cases h : p.token? <;> simp [Piece.reading?, h]

theorem texts_tokenPieces (cs : List Char) :
    (tokenPieces cs).map Piece.text =
      (scanChars cs).stream.tokens.map fun t => t.lexeme.toList := by
  have hlexeme : (fun t : Token => t.lexeme.toList) = (fun r => r.2.1.toList) ∘ Token.reading := rfl
  rw [hlexeme, ← List.map_map, readings_scanChars, ← readings_tokenPieces, List.map_filterMap]
  refine (List.filterMap_eq_map_iff_forall_eq_some.mpr fun p hp => ?_).symm
  obtain ⟨-, ht⟩ := List.mem_filter.mp hp
  obtain ⟨⟨kind, literal⟩, ht⟩ := Option.isSome_iff_exists.mp ht
  simp [Piece.reading?, ht]

theorem toList_respaced (source : String) :
    (respaced source).toList = [' '].intercalate ((tokenPieces source.toList).map Piece.text) := by
  have hkind : ∀ t ∈ (scan source).stream.tokens, t.kind ≠ .eof :=
    (cut_scanChars source.toList).kind_ne_eof
  have htokens : (scan source).stream.toList.filter (fun t => decide (t.kind ≠ .eof)) =
      (scan source).stream.tokens := by
    rw [TokenStream.toList, List.filter_append,
      List.filter_eq_self.mpr fun t ht => decide_eq_true (hkind t ht)]
    exact List.append_nil _
  rw [respaced, htokens, String.toList_intercalate, List.map_map, texts_tokenPieces]
  rfl

theorem pieces_respaced (source : String) :
    pieces (respaced source).toList = (tokenPieces source.toList).intersperse (.blank ' ') := by
  rw [toList_respaced]
  refine pieces_intercalate fun p hp => ?_
  obtain ⟨hp, ht⟩ := List.mem_filter.mp hp
  exact standsAlone_of_mem_pieces hp ht

theorem Piece.fault?_of_token? {p : Piece} (h : p.token?.isSome) : p.fault? = none := by
  cases p <;> first | rfl | exact absurd h (by simp [token?])

/-- **Layout means nothing to a scan.** The lexemes of a source, with spaces between them, have the
tokens of the source and no errors. -/
theorem scan_respaced (source : String) :
    (scan (respaced source)).errors = [] ∧
      (scan (respaced source)).stream.toList.map Token.reading =
        (scan source).stream.toList.map Token.reading := by
  constructor
  · have h := faults_scanChars (respaced source).toList
    rw [pieces_respaced, filterMap_intersperse rfl] at h
    refine List.map_eq_nil_iff.mp (h.trans (List.filterMap_eq_nil_iff.mpr fun p hp => ?_))
    exact Piece.fault?_of_token? (List.mem_filter.mp hp).2
  · simp only [TokenStream.toList, List.map_append, scan, readings_scanChars, pieces_respaced,
      filterMap_intersperse (show Piece.reading? (.blank ' ') = none from rfl),
      readings_tokenPieces]
    rfl

end Lox
