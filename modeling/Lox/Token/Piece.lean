import Lox.Token.Basic

/-!
# Pieces of a source

A source is a sequence of pieces: tokens, comments, blanks, newlines, and the characters that
begin none of these. Each piece is the longest one that starts where the piece before it ends.

## Main definitions

* `Piece`: the pieces of a source
* `Piece.text p`: the characters of a piece
* `Piece.token? p`: the kind and the literal of a token piece
* `piece c cs`: the first piece of the source `c :: cs`, and what follows it
* `pieces cs`: all pieces of a source

## Main results

* `text_piece`: the first piece and what follows it are the source
* `text_pieces`: the pieces are the source
-/

namespace Lox

/-- A piece of a source. -/
inductive Piece where
  /-- a space, a tab or a carriage return -/
  | blank (c : Char)
  | newline
  /-- two slashes and the rest of the line -/
  | comment (body : List Char)
  /-- a punctuation mark or an operator -/
  | symbol (kind : Kind)
  /-- an identifier or a reserved word -/
  | word (cs : List Char)
  /-- the digits before the point, and the digits after it if there is one -/
  | number (whole fraction : List Char)
  /-- the characters between two double quotes -/
  | string (body : List Char)
  /-- a character that begins no other piece -/
  | unexpected (c : Char)
  /-- a double quote and the rest of the source, in which there is no other one -/
  | unterminated (body : List Char)

/-- The characters of a punctuation mark or an operator. -/
def Kind.symbolText : Kind → List Char
  | .leftParen => ['(']
  | .rightParen => [')']
  | .leftBrace => ['{']
  | .rightBrace => ['}']
  | .comma => [',']
  | .dot => ['.']
  | .minus => ['-']
  | .plus => ['+']
  | .semicolon => [';']
  | .slash => ['/']
  | .star => ['*']
  | .bang => ['!']
  | .bangEqual => ['!', '=']
  | .equal => ['=']
  | .equalEqual => ['=', '=']
  | .greater => ['>']
  | .greaterEqual => ['>', '=']
  | .less => ['<']
  | .lessEqual => ['<', '=']
  | _ => []

namespace Piece

/-- The characters of a piece. -/
def text : Piece → List Char
  | blank c => [c]
  | newline => ['\n']
  | comment body => '/' :: '/' :: body
  | symbol kind => kind.symbolText
  | word cs => cs
  | number whole [] => whole
  | number whole (d :: ds) => whole ++ '.' :: d :: ds
  | string body => '"' :: (body ++ ['"'])
  | unexpected c => [c]
  | unterminated body => '"' :: body

/-- The kind of a word: that of the reserved word, if it is one. -/
def wordKind (cs : List Char) : Kind :=
  (keywords.lookup (String.ofList cs)).getD .identifier

/-- The natural number with these decimal digits. -/
def digitsValue (ds : List Char) : Nat :=
  ds.foldl (fun n d => n * 10 + (d.toNat - '0'.toNat)) 0

/-- The number with these digits before and after the point. -/
def numberValue (whole fraction : List Char) : Float :=
  Float.ofScientific (digitsValue (whole ++ fraction)) true fraction.length

/-- The kind and the literal of the token that a piece is. -/
def token? : Piece → Option (Kind × Option Literal)
  | symbol kind => some (kind, none)
  | word cs => some (wordKind cs, none)
  | number whole fraction => some (.number, some (.number (numberValue whole fraction)))
  | string body => some (.string, some (.string (String.ofList body)))
  | _ => none

end Piece

/-! ## Where a piece ends -/

/-- The blanks between tokens; the newline is a piece of its own. -/
def isSpacing (c : Char) : Bool :=
  c = ' ' || c = '\r' || c = '\t'

/-- A character that begins a word. Words are ASCII. -/
def isWordStart (c : Char) : Bool :=
  c.isAlpha || c = '_'

/-- A character inside a word. -/
def isWordPart (c : Char) : Bool :=
  c.isAlphanum || c = '_'

/-- The kind of a character that is a token by itself. -/
def singleKind? : Char → Option Kind
  | '(' => some .leftParen
  | ')' => some .rightParen
  | '{' => some .leftBrace
  | '}' => some .rightBrace
  | ',' => some .comma
  | '.' => some .dot
  | '-' => some .minus
  | '+' => some .plus
  | ';' => some .semicolon
  | '*' => some .star
  | _ => none

/-- The kinds of an operator character, without and with an equals sign after it. -/
def operatorKinds? : Char → Option (Kind × Kind)
  | '!' => some (.bang, .bangEqual)
  | '=' => some (.equal, .equalEqual)
  | '<' => some (.less, .lessEqual)
  | '>' => some (.greater, .greaterEqual)
  | _ => none

/-- The piece that begins with a slash. -/
def slashPiece : List Char → Piece × List Char
  | '/' :: cs => (.comment (cs.takeWhile (· ≠ '\n')), cs.dropWhile (· ≠ '\n'))
  | cs => (.symbol .slash, cs)

/-- The piece that begins with an operator character. -/
def operatorPiece (plain withEqual : Kind) : List Char → Piece × List Char
  | '=' :: cs => (.symbol withEqual, cs)
  | cs => (.symbol plain, cs)

/-- The piece that begins with a double quote. -/
def stringPiece (cs : List Char) : Piece × List Char :=
  match cs.dropWhile (· ≠ '"') with
  | [] => (.unterminated cs, [])
  | _ :: rest => (.string (cs.takeWhile (· ≠ '"')), rest)

/-- The piece that begins with a digit. A point belongs to a number only with a digit after it. -/
def numberPiece (cs : List Char) : Piece × List Char :=
  let whole := cs.takeWhile Char.isDigit
  match cs.dropWhile Char.isDigit with
  | '.' :: d :: rest =>
    if d.isDigit then
      (.number whole (d :: rest.takeWhile Char.isDigit), rest.dropWhile Char.isDigit)
    else (.number whole [], '.' :: d :: rest)
  | rest => (.number whole [], rest)

/-- The piece that begins with the character `c`, and what follows it. -/
def piece (c : Char) (cs : List Char) : Piece × List Char :=
  if let some kind := singleKind? c then (.symbol kind, cs)
  else if let some (plain, withEqual) := operatorKinds? c then operatorPiece plain withEqual cs
  else if c = '/' then slashPiece cs
  else if isSpacing c then (.blank c, cs)
  else if c = '\n' then (.newline, cs)
  else if c = '"' then stringPiece cs
  else if c.isDigit then numberPiece (c :: cs)
  else if isWordStart c then (.word (c :: cs.takeWhile isWordPart), cs.dropWhile isWordPart)
  else (.unexpected c, cs)

/-! ## The pieces are the source -/

theorem singleKind?_text {c : Char} {k : Kind} (h : singleKind? c = some k) :
    k.symbolText = [c] := by
  unfold singleKind? at h
  split at h <;> simp_all <;> subst h <;> rfl

theorem operatorKinds?_text {c : Char} {k l : Kind} (h : operatorKinds? c = some (k, l)) :
    k.symbolText = [c] ∧ l.symbolText = [c, '='] := by
  unfold operatorKinds? at h
  split at h <;> simp_all <;> obtain ⟨rfl, rfl⟩ := h <;> exact ⟨rfl, rfl⟩

theorem text_slashPiece (cs : List Char) :
    (slashPiece cs).1.text ++ (slashPiece cs).2 = '/' :: cs := by
  unfold slashPiece
  split <;> simp [Piece.text, Kind.symbolText, List.takeWhile_append_dropWhile]

theorem text_operatorPiece {c : Char} {k l : Kind} (hk : k.symbolText = [c])
    (hl : l.symbolText = [c, '=']) (cs : List Char) :
    (operatorPiece k l cs).1.text ++ (operatorPiece k l cs).2 = c :: cs := by
  unfold operatorPiece
  split <;> simp [Piece.text, hk, hl]

theorem text_stringPiece (cs : List Char) :
    (stringPiece cs).1.text ++ (stringPiece cs).2 = '"' :: cs := by
  have h := List.takeWhile_append_dropWhile (p := fun c => decide (c ≠ '"')) (l := cs)
  unfold stringPiece
  split
  · simp [Piece.text]
  · rename_i q rest hq
    have hc : q = '"' := by
      have hn : cs.dropWhile (fun c => decide (c ≠ '"')) ≠ [] := by rw [hq]; simp
      have hf := List.head_dropWhile_not (fun c => decide (c ≠ '"')) hn
      simp only [hq, List.head_cons] at hf
      simpa using hf
    subst hc
    rw [hq] at h
    simpa [Piece.text] using h

theorem text_numberPiece (cs : List Char) :
    (numberPiece cs).1.text ++ (numberPiece cs).2 = cs := by
  have h := List.takeWhile_append_dropWhile (p := Char.isDigit) (l := cs)
  unfold numberPiece
  simp only
  generalize cs.takeWhile Char.isDigit = whole at *
  split
  · rename_i d rest hr
    rw [hr] at h
    split
    · rw [← h]
      simp [Piece.text, List.takeWhile_append_dropWhile]
    · exact h
  · exact h

/-- The first piece and what follows it are the source. -/
theorem text_piece (c : Char) (cs : List Char) :
    (piece c cs).1.text ++ (piece c cs).2 = c :: cs := by
  unfold piece
  split
  · rename_i k hk
    simp [Piece.text, singleKind?_text hk]
  split
  · rename_i k l hkl
    exact text_operatorPiece (operatorKinds?_text hkl).1 (operatorKinds?_text hkl).2 cs
  split
  · rename_i h
    rw [h, text_slashPiece]
  split
  · simp [Piece.text]
  split
  · rename_i h
    simp [Piece.text, h]
  split
  · rename_i h
    rw [h, text_stringPiece]
  split
  · exact text_numberPiece (c :: cs)
  split
  · simp [Piece.text, List.takeWhile_append_dropWhile]
  · simp [Piece.text]

/-! ## All pieces -/

theorem length_dropWhile_le (p : Char → Bool) (cs : List Char) :
    (cs.dropWhile p).length ≤ cs.length :=
  (List.dropWhile_sublist p).length_le

theorem length_slashPiece_le (cs : List Char) : (slashPiece cs).2.length ≤ cs.length := by
  unfold slashPiece
  split
  · rename_i cs
    exact Nat.le_succ_of_le (length_dropWhile_le _ cs)
  · exact Nat.le_refl _

theorem length_operatorPiece_le (k l : Kind) (cs : List Char) :
    (operatorPiece k l cs).2.length ≤ cs.length := by
  unfold operatorPiece
  split <;> simp

theorem length_stringPiece_le (cs : List Char) : (stringPiece cs).2.length ≤ cs.length := by
  have h := length_dropWhile_le (fun c => decide (c ≠ '"')) cs
  unfold stringPiece
  split
  · simp
  · rename_i q rest hq
    rw [hq, List.length_cons] at h
    exact Nat.le_of_succ_le h

theorem length_numberPiece_le {c : Char} (hc : c.isDigit = true) (cs : List Char) :
    (numberPiece (c :: cs)).2.length ≤ cs.length := by
  have h : ((c :: cs).dropWhile Char.isDigit).length ≤ cs.length := by
    simpa [List.dropWhile_cons, hc] using length_dropWhile_le Char.isDigit cs
  unfold numberPiece
  simp only
  split
  · rename_i d rest hr
    rw [hr] at h
    split
    · exact Nat.le_trans (length_dropWhile_le _ rest)
        (Nat.le_trans (Nat.le_add_right _ 2) h)
    · exact h
  · exact h

/-- A piece has at least one character. -/
theorem length_piece_le (c : Char) (cs : List Char) : (piece c cs).2.length ≤ cs.length := by
  unfold piece
  split
  · exact Nat.le_refl _
  split
  · exact length_operatorPiece_le _ _ cs
  split
  · exact length_slashPiece_le cs
  split
  · exact Nat.le_refl _
  split
  · exact Nat.le_refl _
  split
  · exact length_stringPiece_le cs
  split
  · rename_i h
    exact length_numberPiece_le h cs
  split
  · exact length_dropWhile_le _ cs
  · exact Nat.le_refl _

/-- The pieces of a source, in order. -/
def pieces : List Char → List Piece
  | [] => []
  | c :: cs => (piece c cs).1 :: pieces (piece c cs).2
termination_by cs => cs.length
decreasing_by exact Nat.lt_succ_of_le (length_piece_le c cs)

/-- The pieces are the source. -/
theorem text_pieces (cs : List Char) : (pieces cs).flatMap Piece.text = cs := by
  induction cs using pieces.induct with
  | case1 => simp [pieces]
  | case2 c cs ih => rw [pieces, List.flatMap_cons, ih, text_piece]

end Lox
