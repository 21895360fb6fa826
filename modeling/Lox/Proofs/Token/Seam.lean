import Lox.Proofs.Token.Counting

/-!
# Sources that are joined by a newline

A newline ends every piece but a string. So if all strings of a source are terminated, then what
follows it on a line of its own is scanned as it would be by itself, only further down and further
to the right.

## Main definitions

* `Token.shift`, `ScanError.shift`, `Diagnostic.shift`: a token, an error or its report, that many
  lines and characters further on
* `Scan.diagnostics`: the reports of the errors of a scan

## Main results

* `pieces_newline`: the pieces of two sources that are joined by a newline
* `scanChars_newline`: their tokens and scan errors
* `scan_lines`: the same of what a scan shows to others, which are tokens and reports
-/

namespace Lox

/-- The piece is a string without an end. -/
def Piece.IsUnterminated : Piece → Prop
  | unterminated _ => True
  | _ => False

/-! ## Pieces -/

section

variable {p : Char → Bool} {c : Char}

theorem takeWhile_append_stop (hc : p c = false) (cs ds : List Char) :
    (cs ++ c :: ds).takeWhile p = cs.takeWhile p := by
  induction cs with
  | nil => simp [hc]
  | cons d cs ih => by_cases hd : p d = true <;> simp [hd, ih]

theorem dropWhile_append_stop (hc : p c = false) (cs ds : List Char) :
    (cs ++ c :: ds).dropWhile p = cs.dropWhile p ++ c :: ds := by
  induction cs with
  | nil => simp [hc]
  | cons d cs ih => by_cases hd : p d = true <;> simp [hd, ih]

end

theorem slashPiece_append (cs ds : List Char) :
    slashPiece (cs ++ '\n' :: ds) = ((slashPiece cs).1, (slashPiece cs).2 ++ '\n' :: ds) := by
  cases cs with
  | nil => rfl
  | cons d cs =>
    by_cases hd : d = '/'
    · subst hd
      simp only [List.cons_append, slashPiece]
      rw [takeWhile_append_stop (by decide), dropWhile_append_stop (by decide)]
    · simp [slashPiece, hd]

theorem operatorPiece_append (k l : Kind) (cs ds : List Char) :
    operatorPiece k l (cs ++ '\n' :: ds) =
      ((operatorPiece k l cs).1, (operatorPiece k l cs).2 ++ '\n' :: ds) := by
  cases cs with
  | nil => rfl
  | cons d cs =>
    by_cases hd : d = '='
    · subst hd
      rfl
    · simp [operatorPiece, hd]

/-- A string that is terminated ends before the newline. -/
theorem stringPiece_append {cs : List Char} (h : ¬(stringPiece cs).1.IsUnterminated)
    (ds : List Char) :
    stringPiece (cs ++ '\n' :: ds) = ((stringPiece cs).1, (stringPiece cs).2 ++ '\n' :: ds) := by
  unfold stringPiece at h ⊢
  rw [List.takeWhile_append, List.dropWhile_append]
  cases hd : cs.dropWhile fun c => decide (c ≠ '"') with
  | nil =>
    rw [hd] at h
    exact absurd trivial h
  | cons q rest =>
    have hsplit : cs.takeWhile (fun c => decide (c ≠ '"')) ++ cs.dropWhile _ = cs :=
      List.takeWhile_append_dropWhile
    have hlen : (cs.takeWhile fun c => decide (c ≠ '"')).length ≠ cs.length := by
      have := congrArg List.length hsplit
      rw [hd, List.length_append, List.length_cons] at this
      omega
    rw [if_neg hlen]
    rfl

/-- A newline is no digit, so a point at the end of a source belongs to no number. -/
theorem numberPiece_append (cs ds : List Char) :
    numberPiece (cs ++ '\n' :: ds) = ((numberPiece cs).1, (numberPiece cs).2 ++ '\n' :: ds) := by
  unfold numberPiece
  rw [takeWhile_append_stop (by decide), dropWhile_append_stop (by decide)]
  cases cs.dropWhile Char.isDigit with
  | nil => rfl
  | cons e rest =>
    -- a point belongs to the number if a digit comes after it, and a newline is none
    by_cases he : e = '.'
    · subst he
      cases rest with
      | nil => rfl
      | cons d rest =>
        simp only [List.cons_append]
        split
        · rw [takeWhile_append_stop (by decide), dropWhile_append_stop (by decide)]
        · rfl
    · simp [he]

/-- A newline that comes later makes no difference for a piece. -/
theorem piece_append {c : Char} {cs : List Char} (h : ¬(piece c cs).1.IsUnterminated)
    (ds : List Char) :
    piece c (cs ++ '\n' :: ds) = ((piece c cs).1, (piece c cs).2 ++ '\n' :: ds) := by
  unfold piece at h ⊢
  split
  · rfl
  split
  · exact operatorPiece_append ..
  split
  · exact slashPiece_append ..
  split
  · rfl
  split
  · rfl
  split
  · rename_i h₁ h₂ h₃ h₄ h₅ h₆
    subst h₆
    exact stringPiece_append h ds
  split
  · exact numberPiece_append (c :: cs) ds
  split
  · rw [takeWhile_append_stop (by decide), dropWhile_append_stop (by decide)]
  · rfl

/-- The pieces of two sources that are joined by a newline. -/
theorem pieces_newline {cs : List Char} (h : ∀ p ∈ pieces cs, ¬p.IsUnterminated)
    (ds : List Char) : pieces (cs ++ '\n' :: ds) = pieces cs ++ .newline :: pieces ds := by
  -- piece by piece, up to the newline, which is a piece of its own
  induction cs using pieces.induct with
  | case1 =>
    have hn : piece '\n' ds = (.newline, ds) := rfl
    rw [List.nil_append, pieces, pieces, List.nil_append, hn]
  | case2 c cs ih =>
    rw [pieces, List.forall_mem_cons] at h
    rw [List.cons_append, pieces, pieces, piece_append h.1, ih h.2, List.cons_append]

/-! ## Places -/

/-- The token, that many lines and characters further on. -/
def Token.shift (lines chars : Nat) (t : Token) : Token :=
  { t with line := t.line + lines, offset := t.offset + chars }

/-- The error, that many lines and characters further on. -/
def ScanError.shift (lines chars : Nat) (e : ScanError) : ScanError :=
  { e with line := e.line + lines, offset := e.offset + chars }

/-- The piece, that many lines and characters further on. -/
def Placed.shift (lines chars : Nat) (p : Placed) : Placed :=
  { p with line := p.line + lines, offset := p.offset + chars }

theorem Placed.token?_shift (lines chars : Nat) (p : Placed) :
    (p.shift lines chars).token? = p.token?.map (Token.shift lines chars) := by
  unfold Placed.token?
  cases h : p.piece.token? <;> simp [Placed.shift, h, Token.shift]

theorem Placed.error?_shift (lines chars : Nat) (p : Placed) :
    (p.shift lines chars).error? = p.error?.map (ScanError.shift lines chars) := by
  obtain ⟨piece, line, offset⟩ := p
  cases piece <;> rfl

/-- The counters, that many lines and characters further on. -/
def Counters.shift (lines chars : Nat) (s : Counters) : Counters :=
  ⟨s.line + lines, s.current + chars⟩

theorem Counters.after_shift (lines chars : Nat) (s : Counters) (p : Piece) :
    (s.shift lines chars).after p = (s.after p).shift lines chars := by
  cases p with
  | number whole fraction =>
    cases fraction <;> simp only [shift, after, Nat.add_right_comm _ chars]
  | _ => simp only [shift, after, Nat.add_right_comm _ chars, Nat.add_right_comm _ lines]

theorem place_shift (lines chars : Nat) (s : Counters) (ps : List Piece) :
    place (s.shift lines chars) ps =
      ((place s ps).1.map (Placed.shift lines chars), (place s ps).2.shift lines chars) := by
  induction ps generalizing s with
  | nil => rfl
  | cons p ps ih =>
    simp only [place, Counters.after_shift, ih, List.map_cons]
    rfl

/-- A string without an end is reported. -/
theorem not_isUnterminated_of_errors {cs : List Char}
    (h : ∀ e ∈ (scanChars cs).errors, e.fault ≠ .unterminatedString) :
    ∀ p ∈ pieces cs, ¬p.IsUnterminated := by
  intro p hp
  rw [← map_piece_place .start (pieces cs)] at hp
  obtain ⟨q, hq, rfl⟩ := List.mem_map.mp hp
  intro hu
  have he : ∃ e, q.error? = some e ∧ e.fault = .unterminatedString := by
    unfold Placed.error?
    cases hc : q.piece <;> simp_all [Piece.IsUnterminated]
  obtain ⟨e, he, hf⟩ := he
  exact h e (List.mem_filterMap.mpr ⟨q, hq, he⟩) hf

/-- **The seam of two sources.** If all strings of a source are terminated, then what follows it
after a newline is scanned as by itself, one line more than it has newlines and one character more
than it has characters further on. -/
theorem scanChars_newline {cs : List Char}
    (h : ∀ e ∈ (scanChars cs).errors, e.fault ≠ .unterminatedString) (ds : List Char) :
    (scanChars (cs ++ '\n' :: ds)).stream.tokens = (scanChars cs).stream.tokens ++
        (scanChars ds).stream.tokens.map (Token.shift (Text.newlines cs + 1) (cs.length + 1)) ∧
      (scanChars (cs ++ '\n' :: ds)).stream.eof =
        (scanChars ds).stream.eof.shift (Text.newlines cs + 1) (cs.length + 1) ∧
      (scanChars (cs ++ '\n' :: ds)).errors = (scanChars cs).errors ++
        (scanChars ds).errors.map (ScanError.shift (Text.newlines cs + 1) (cs.length + 1)) := by
  have hpieces := pieces_newline (not_isUnterminated_of_errors h) ds
  have hcounters : (Counters.start.behind cs).after .newline =
      Counters.start.shift (Text.newlines cs + 1) (cs.length + 1) := rfl
  have hfst : (place .start (pieces (cs ++ '\n' :: ds))).1 = (place .start (pieces cs)).1 ++
      ⟨.newline, ((Counters.start.behind cs).after .newline).line, 0 + cs.length⟩ ::
        (place .start (pieces ds)).1.map (Placed.shift (Text.newlines cs + 1) (cs.length + 1)) := by
    rw [hpieces, place_append_fst, place_pieces_snd]
    simp only [place, hcounters, place_shift]
    rfl
  have hsnd : (place .start (pieces (cs ++ '\n' :: ds))).2 =
      (place .start (pieces ds)).2.shift (Text.newlines cs + 1) (cs.length + 1) := by
    rw [hpieces, place_append_snd, place_pieces_snd]
    simp only [place, hcounters, place_shift]
  have htoken : Placed.token? ∘ Placed.shift (Text.newlines cs + 1) (cs.length + 1) =
      fun p => p.token?.map (Token.shift (Text.newlines cs + 1) (cs.length + 1)) :=
    funext fun p => p.token?_shift _ _
  have herror : Placed.error? ∘ Placed.shift (Text.newlines cs + 1) (cs.length + 1) =
      fun p => p.error?.map (ScanError.shift (Text.newlines cs + 1) (cs.length + 1)) :=
    funext fun p => p.error?_shift _ _
  refine ⟨?_, ?_, ?_⟩
  · simp only [scanChars, hfst, List.filterMap_append]
    rw [List.filterMap_cons_none rfl, List.filterMap_map, List.map_filterMap, htoken]
  · simp only [scanChars, hsnd]
    rfl
  · simp only [scanChars, hfst, List.filterMap_append]
    rw [List.filterMap_cons_none rfl, List.filterMap_map, List.map_filterMap, herror]

/-! ## What a scan shows -/

/-- The reports of the errors of a scan. -/
def Scan.diagnostics (s : Scan) : List Diagnostic :=
  s.errors.map ScanError.diagnostic

/-- The report, that many lines and characters further on. -/
def Diagnostic.shift (lines chars : Nat) (d : Diagnostic) : Diagnostic :=
  { d with line := d.line + lines, offset := d.offset.map (· + (chars : Int)) }

theorem ScanError.diagnostic_shift (lines chars : Nat) (e : ScanError) :
    (e.shift lines chars).diagnostic = e.diagnostic.shift lines chars := by
  simp [ScanError.diagnostic, ScanError.shift, Diagnostic.shift]

/-- The wording of a scan fault says whether it is a string without an end. -/
theorem ScanFault.message_eq_iff {fault : ScanFault} :
    fault.message = "Unterminated string." ↔ fault = .unterminatedString := by
  refine ⟨fun h => ?_, fun h => h ▸ rfl⟩
  cases fault with
  | unterminatedString => rfl
  | unexpectedCharacter c =>
    have hc : ("Unexpected character '" ++ String.singleton c ++ "'.").toList =
        "Unterminated string.".toList := congrArg String.toList h
    have hstart := congrArg (List.take 3) hc
    rw [String.toList_append, String.toList_append, List.append_assoc,
      List.take_append_of_le_length (by decide)] at hstart
    exact absurd hstart (by decide)

/-- **Scanning line by line.** If a source has no string without an end, then the tokens of this
source and another one after a newline are its own, without the one that ends it, and then those of
the other one, where each is one line further on than the source has newlines and one character
further on than it has characters. The same holds of the reports. -/
theorem scan_lines {a : String}
    (h : ∀ d ∈ (scan a).diagnostics, d.message ≠ "Unterminated string.") (b : String) :
    (scan (a ++ "\n" ++ b)).stream.toList = (scan a).stream.toList.dropLast ++
        (scan b).stream.toList.map (Token.shift (a.toList.count '\n' + 1) (a.length + 1)) ∧
      (scan (a ++ "\n" ++ b)).diagnostics = (scan a).diagnostics ++
        (scan b).diagnostics.map (Diagnostic.shift (a.toList.count '\n' + 1) (a.length + 1)) := by
  have hterm : ∀ e ∈ (scan a).errors, e.fault ≠ .unterminatedString := fun e he hf =>
    h _ (List.mem_map_of_mem he) (ScanFault.message_eq_iff.mpr hf)
  obtain ⟨htokens, heof, herrors⟩ := scanChars_newline hterm b.toList
  have hjoin : scan (a ++ "\n" ++ b) = scanChars (a.toList ++ '\n' :: b.toList) := by simp [scan]
  rw [hjoin, ← String.length_toList]
  constructor
  · simp only [TokenStream.toList, htokens, heof, List.dropLast_concat, List.map_append,
      List.append_assoc, List.map_singleton]
    rfl
  · have hshift (lines chars : Nat) : ScanError.diagnostic ∘ ScanError.shift lines chars =
        Diagnostic.shift lines chars ∘ ScanError.diagnostic :=
      funext fun e => e.diagnostic_shift lines chars
    rw [Scan.diagnostics, herrors, List.map_append, List.map_map, hshift, ← List.map_map]
    rfl

/-- An unexpected character stands before the seam, and another one behind it. -/
theorem scan_lines_unexpected :
    ((scan "1 #").diagnostics.map Diagnostic.message = ["Unexpected character '#'."] ∧
      (scan "\n@ x").diagnostics.map Diagnostic.message = ["Unexpected character '@'."]) ∧
    (scan ("1 #" ++ "\n" ++ "\n@ x")).stream.toList = (scan "1 #").stream.toList.dropLast ++
        (scan "\n@ x").stream.toList.map (Token.shift 1 4) ∧
      (scan ("1 #" ++ "\n" ++ "\n@ x")).diagnostics = (scan "1 #").diagnostics ++
        (scan "\n@ x").diagnostics.map (Diagnostic.shift 1 4) :=
  ⟨by decide +kernel, scan_lines (by decide +kernel) "\n@ x"⟩

end Lox
