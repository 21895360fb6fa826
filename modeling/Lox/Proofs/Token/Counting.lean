import Lox.Token.Scan
import Mathlib.Data.List.TakeWhile
import Mathlib.Tactic.Common

/-!
# The counters of a scan

A scan counts characters at every piece, but lines only at newlines and in strings. This is enough,
since no other piece of a source has a newline in it: a comment ends in front of its newline, and
there is none in a word or in a number. So the counters are right behind each piece of a source, and
behind the whole of it.

## Main definitions

* `Counters.behind s cs`: what the counters should be behind the text `cs`
* `Piece.Counted p`: the lines of the piece are counted

## Main results

* `counted_piece`: the pieces of a source are counted
* `place_pieces_snd`: the counters behind a source
* `line_eof_scan`, `offset_eof_scan`: so the token that ends a source is where it should be
-/

namespace Lox

/-- What the counters should be behind a text. -/
def Counters.behind (s : Counters) (cs : List Char) : Counters :=
  ⟨s.line + Text.newlines cs, s.current + cs.length⟩

/-- The lines of the piece are counted. -/
def Piece.Counted (p : Piece) : Prop :=
  ∀ s : Counters, (s.after p).line = s.line + Text.newlines p.text

theorem Counters.behind_append (s : Counters) (cs ds : List Char) :
    s.behind (cs ++ ds) = (s.behind cs).behind ds := by
  simp only [behind, Text.newlines, List.count_append, List.length_append, Nat.add_assoc]

/-- At each piece, its characters are counted. -/
theorem Counters.current_after (s : Counters) (p : Piece) :
    (s.after p).current = s.current + p.text.length := by
  cases p with
  | number whole fraction =>
    cases fraction with
    | nil => simp [after, Piece.text]
    | cons d ds =>
      simp [after, Piece.text]
      omega
  | _ => simp [after, Piece.text] <;> omega

theorem Piece.Counted.after {p : Piece} (h : p.Counted) (s : Counters) :
    s.after p = s.behind p.text := by
  rw [Counters.behind, ← h s, ← s.current_after p]

/-! ## Pieces -/

/-- A piece at which no line is counted is counted if it has no newline. -/
theorem Piece.counted_of_notMem {p : Piece} (hn : '\n' ∉ p.text)
    (h : ∀ s : Counters, (s.after p).line = s.line) : p.Counted := by
  intro s
  rw [h, Text.newlines, List.count_eq_zero.mpr hn, Nat.add_zero]

theorem newline_notMem_takeWhile {p : Char → Bool} (hp : p '\n' = false) (cs : List Char) :
    '\n' ∉ cs.takeWhile p := fun hm => by
  simpa [hp] using List.mem_takeWhile_imp hm

theorem counted_symbol (kind : Kind) : (Piece.symbol kind).Counted :=
  Piece.counted_of_notMem (by cases kind <;> decide) fun _ => rfl

theorem counted_slashPiece (cs : List Char) : (slashPiece cs).1.Counted := by
  unfold slashPiece
  split
  · refine Piece.counted_of_notMem ?_ fun _ => rfl
    simpa only [Piece.text, List.mem_cons, not_or] using
      ⟨by decide, by decide, newline_notMem_takeWhile (by decide) _⟩
  · exact counted_symbol _

theorem counted_operatorPiece (k l : Kind) (cs : List Char) : (operatorPiece k l cs).1.Counted := by
  unfold operatorPiece
  split <;> exact counted_symbol _

/-- The newlines of a string are counted, and its quotes are none. -/
theorem counted_stringPiece (cs : List Char) : (stringPiece cs).1.Counted := by
  intro s
  unfold stringPiece
  split <;> simp [Counters.after, Piece.text, Text.newlines]

theorem counted_numberPiece (cs : List Char) : (numberPiece cs).1.Counted := by
  have hdigits := newline_notMem_takeWhile (p := Char.isDigit) (by decide)
  have hwhole (ds : List Char) : (Piece.number (ds.takeWhile Char.isDigit) []).Counted :=
    Piece.counted_of_notMem (hdigits ds) fun _ => rfl
  unfold numberPiece
  simp only
  split
  · rename_i d rest _
    split
    · rename_i hd
      have hne : '\n' ≠ d := by
        rintro rfl
        exact absurd hd (by decide)
      exact Piece.counted_of_notMem (by simp [Piece.text, hdigits, hne]) fun _ => rfl
    · exact hwhole cs
  · exact hwhole cs

/-- The pieces of a source are counted. -/
theorem counted_piece (c : Char) (cs : List Char) : (piece c cs).1.Counted := by
  unfold piece
  split
  · exact counted_symbol _
  split
  · exact counted_operatorPiece _ _ cs
  split
  · exact counted_slashPiece cs
  split
  · rename_i hc
    refine Piece.counted_of_notMem ?_ fun _ => rfl
    rw [Piece.text, List.mem_singleton]
    rintro rfl
    exact absurd hc (by decide)
  split
  · exact fun s => rfl
  split
  · exact counted_stringPiece cs
  split
  · exact counted_numberPiece (c :: cs)
  split
  · rename_i hc
    refine Piece.counted_of_notMem ?_ fun _ => rfl
    rw [Piece.text, List.mem_cons, not_or]
    refine ⟨?_, newline_notMem_takeWhile (by decide) cs⟩
    rintro rfl
    exact absurd hc (by decide)
  · rename_i hc _ _ _
    exact Piece.counted_of_notMem (by simpa [Piece.text] using Ne.symm hc) fun _ => rfl

/-! ## Sources -/

theorem place_append_fst (s : Counters) (ps qs : List Piece) :
    (place s (ps ++ qs)).1 = (place s ps).1 ++ (place (place s ps).2 qs).1 := by
  induction ps generalizing s with
  | nil => rfl
  | cons p ps ih => simp only [List.cons_append, place, ih]

theorem place_append_snd (s : Counters) (ps qs : List Piece) :
    (place s (ps ++ qs)).2 = (place (place s ps).2 qs).2 := by
  induction ps generalizing s with
  | nil => rfl
  | cons p ps ih => simp only [List.cons_append, place, ih]

theorem map_piece_place (s : Counters) (ps : List Piece) :
    (place s ps).1.map Placed.piece = ps := by
  induction ps generalizing s with
  | nil => rfl
  | cons p ps ih => simp only [place, List.map_cons, ih]

/-- The counters are right behind a source. -/
theorem place_pieces_snd (s : Counters) (cs : List Char) :
    (place s (pieces cs)).2 = s.behind cs := by
  -- piece by piece, each of which leaves them right for the next one
  induction cs using pieces.induct generalizing s with
  | case1 => rw [pieces]; rfl
  | case2 c cs ih =>
    rw [pieces]
    show (place (s.after (piece c cs).1) (pieces (piece c cs).2)).2 = _
    rw [ih, (counted_piece c cs).after, ← Counters.behind_append, text_piece]

/-- The token that ends a source is on its last line. -/
theorem line_eof_scan (source : String) :
    (scan source).stream.eof.line = 1 + source.toList.count '\n' :=
  congrArg Counters.line (place_pieces_snd .start source.toList)

/-- The token that ends a source stands behind all characters. -/
theorem offset_eof_scan (source : String) :
    (scan source).stream.eof.offset = source.length := by
  have hcurrent := congrArg Counters.current (place_pieces_snd .start source.toList)
  rw [← String.length_toList, ← Nat.zero_add source.toList.length]
  exact hcurrent

end Lox
