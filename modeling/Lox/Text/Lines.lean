/-!
# Lines

The lines of a text. They end at the newline character only.

## Main definitions

* `splitLines cs`: the lines of a text, without their newlines
* `newlines cs`: the number of newlines of a text
* `paddedNumber n`: a line number in a column
* `unifyNewlines cs`: the text with one character for each line end

## Main results

* `length_splitLines`: there is one more line than newlines
-/

namespace Lox.Text

/-- The lines of a text whose first character is `c`, from the lines of what follows `c`. -/
def consLine (c : Char) (lines : List (List Char)) : List (List Char) :=
  if c = '\n' then [] :: lines
  else
    match lines with
    | [] => [[c]]
    | line :: lines => (c :: line) :: lines

/-- The lines of a text. There is one more of them than newlines. -/
def splitLines (cs : List Char) : List (List Char) :=
  cs.foldr consLine [[]]

/-- The number of newlines of a text. -/
def newlines (cs : List Char) : Nat :=
  cs.count '\n'

theorem splitLines_cons (c : Char) (cs : List Char) :
    splitLines (c :: cs) = consLine c (splitLines cs) := rfl

/-- There is one more line than newlines. -/
theorem length_splitLines (cs : List Char) : (splitLines cs).length = newlines cs + 1 := by
  induction cs with
  | nil => rfl
  | cons c cs ih =>
    rw [splitLines_cons, newlines, List.count_cons]
    unfold consLine
    by_cases h : c = '\n'
    · simp [h, ih, newlines]
    · cases hs : splitLines cs with
      | nil => simp [hs] at ih
      | cons line lines => simpa [h, hs, newlines] using ih

/-- A line number in a column of width four. -/
def paddedNumber (n : Nat) : List Char :=
  let digits := Nat.toDigits 10 n
  List.replicate (4 - digits.length) ' ' ++ digits

/-- One character of a text with all kinds of line ends, after the reversed text before it. The flag
says whether a carriage return comes right before: a newline after it belongs to the same line
end. -/
def unifyStep : Bool × List Char → Char → Bool × List Char
  | (afterReturn, done), c =>
    if c = '\r' then (true, '\n' :: done)
    else if c = '\n' ∧ afterReturn then (false, done)
    else (false, c :: done)

/-- A carriage return, with or without a newline after it, counts as one newline. -/
def unifyNewlines (cs : List Char) : List Char :=
  (cs.foldl unifyStep (false, [])).2.reverse

end Lox.Text
