import Lox.Token.Scan
import Mathlib.Tactic.Common

/-!
# The lexical grammar

The tokens and the comments of the language as sets of texts. A text is in the grammar or not; the
grammar does not say where one text ends and the next one begins, which is what a scan decides.

A token goes with its kind and its literal. Words and numbers are ASCII, a word that is spelled
like a reserved word is that word, and a string has no escapes, so its literal is what stands
between the quotes.

## Main definitions

* `IsWord cs`, `IsNumber cs`: the texts of words and of numbers
* `decimalValue cs`: the number that the text of a number stands for
* `Lexeme kind cs literal`: `cs` is the text of a token of that kind, with that literal
* `IsComment cs`: `cs` is the text of a comment
* `IsLexical cs`: `cs` is the text of a token or of a comment
* `IsLongest cs rest`: nothing in the grammar that `cs` and the `rest` begin with is longer than
  `cs`

## Main results

* `IsLexical.afterHead`: the first character of a token or a comment says what can stand behind it
-/

namespace Lox

/-! ## Words and numbers -/

/-- The character is an ASCII digit. -/
def IsDigit (c : Char) : Prop :=
  '0' ≤ c ∧ c ≤ '9'

/-- The character is an ASCII letter or an underscore. -/
def IsLetter (c : Char) : Prop :=
  ('a' ≤ c ∧ c ≤ 'z') ∨ ('A' ≤ c ∧ c ≤ 'Z') ∨ c = '_'

instance : DecidablePred IsDigit :=
  fun c => inferInstanceAs (Decidable ('0' ≤ c ∧ c ≤ '9'))

/-- The text of a word: a letter, then letters and digits. -/
def IsWord (cs : List Char) : Prop :=
  ∃ first rest, cs = first :: rest ∧ IsLetter first ∧ ∀ c ∈ rest, IsLetter c ∨ IsDigit c

/-- The text is a sequence of one or more digits. -/
def IsDigits (cs : List Char) : Prop :=
  cs ≠ [] ∧ ∀ c ∈ cs, IsDigit c

/-- The text of a number: digits, and after a point more digits if there is one. -/
inductive IsNumber : List Char → Prop
  | whole {ds : List Char} (h : IsDigits ds) : IsNumber ds
  | fraction {ds es : List Char} (h : IsDigits ds) (hf : IsDigits es) : IsNumber (ds ++ '.' :: es)

/-- The number that the text of a number stands for: its digits as one natural number, with the
point moved left over those that come after it. -/
def decimalValue (cs : List Char) : Float :=
  Float.ofScientific (Nat.ofDigitChars 10 (cs.filter (· ≠ '.')) 0) true
    ((cs.dropWhile (· ≠ '.')).length - 1)

/-! ## Tokens and comments -/

/-- The text of a token, with its kind and its literal. -/
inductive Lexeme : Kind → List Char → Option Literal → Prop
  | symbol {kind : Kind} (h : kind.symbolText ≠ []) : Lexeme kind kind.symbolText none
  | keyword {word : String} {kind : Kind} (h : (word, kind) ∈ keywords) :
      Lexeme kind word.toList none
  | identifier {cs : List Char} (h : IsWord cs)
      (hk : ∀ kind, (String.ofList cs, kind) ∉ keywords) : Lexeme .identifier cs none
  | number {cs : List Char} (h : IsNumber cs) :
      Lexeme .number cs (some (.number (decimalValue cs)))
  | string {body : List Char} (h : '"' ∉ body) :
      Lexeme .string ('"' :: (body ++ ['"'])) (some (.string (String.ofList body)))

/-- The text of a comment: two slashes, then no newline. -/
def IsComment (cs : List Char) : Prop :=
  ∃ body, cs = '/' :: '/' :: body ∧ '\n' ∉ body

/-- The text of a token or of a comment. -/
def IsLexical (cs : List Char) : Prop :=
  (∃ kind literal, Lexeme kind cs literal) ∨ IsComment cs

/-- Where `cs` begins, with the `rest` behind it, no token and no comment is longer than `cs`. -/
def IsLongest (cs rest : List Char) : Prop :=
  ∀ other, IsLexical other → other <+: cs ++ rest → other.length ≤ cs.length

/-! ## Characters -/

theorem isDigit_eq_true_iff {c : Char} : c.isDigit = true ↔ IsDigit c := by
  simp [Char.isDigit, IsDigit, Char.le_def]

theorem isWordStart_eq_true_iff {c : Char} : isWordStart c = true ↔ IsLetter c := by
  unfold isWordStart Char.isAlpha Char.isUpper Char.isLower
  simp [IsLetter, Char.le_def]
  tauto

theorem isWordPart_eq_true_iff {c : Char} : isWordPart c = true ↔ IsLetter c ∨ IsDigit c := by
  rw [← isWordStart_eq_true_iff, ← isDigit_eq_true_iff]
  simp [isWordPart, isWordStart, Char.isAlphanum]
  tauto

theorem IsDigit.not_isLetter {c : Char} (h : IsDigit c) : ¬IsLetter c := by
  simp only [IsDigit, IsLetter, Char.le_def, UInt32.le_iff_toNat_le] at h ⊢
  have hlast : '9'.val.toNat = 57 := rfl
  rintro (hl | hl | rfl)
  · have hfirst : 'a'.val.toNat = 97 := rfl
    omega
  · have hfirst : 'A'.val.toNat = 65 := rfl
    omega
  · exact absurd h.2 (by decide)

theorem isSpacing_eq_true_iff {c : Char} : isSpacing c = true ↔ c ∈ [' ', '\t', '\r'] := by
  simp [isSpacing]
  tauto

/-! ## What a text begins with -/

/-- The reserved words are words. -/
theorem isWord_of_mem_keywords {word : String} {kind : Kind} (h : (word, kind) ∈ keywords) :
    IsWord word.toList := by
  have hall : ∀ entry ∈ keywords, ∃ c cs, entry.1.toList = c :: cs ∧ isWordStart c = true ∧
      ∀ d ∈ cs, isWordPart d = true := by
    simp [keywords, isWordStart, isWordPart]
  obtain ⟨c, cs, ht, hc, hcs⟩ := hall _ h
  exact ⟨c, cs, ht, isWordStart_eq_true_iff.mp hc,
    fun d hd => isWordPart_eq_true_iff.mp (hcs d hd)⟩

theorem IsNumber.head {c : Char} {cs : List Char} (h : IsNumber (c :: cs)) : IsDigit c := by
  generalize hn : c :: cs = n at h
  cases h with
  | whole h => exact h.2 c (by rw [← hn]; exact List.mem_cons_self)
  | @fraction ds es h hf =>
    cases ds with
    | nil => exact absurd rfl h.1
    | cons d ds =>
      rw [List.cons_append, List.cons.injEq] at hn
      exact hn.1 ▸ h.2 d List.mem_cons_self

theorem Lexeme.ne_nil {kind : Kind} {cs : List Char} {literal : Option Literal}
    (h : Lexeme kind cs literal) : cs ≠ [] := by
  cases h with
  | symbol h => exact h
  | keyword h =>
    obtain ⟨_, _, hw, -⟩ := isWord_of_mem_keywords h
    simp [hw]
  | identifier h =>
    obtain ⟨_, _, rfl, -⟩ := h
    simp
  | number h => cases h with
    | whole h => exact h.1
    | fraction => simp
  | string => simp

theorem IsLexical.ne_nil {cs : List Char} (h : IsLexical cs) : cs ≠ [] := by
  obtain ⟨_, _, h⟩ | ⟨_, rfl, -⟩ := h
  · exact h.ne_nil
  · simp

/-- What the tokens and comments that begin with the character `c` have behind it. -/
inductive AfterHead (c : Char) : List Char → Prop
  | single {kind : Kind} (h : singleKind? c = some kind) : AfterHead c []
  | operator {kinds : Kind × Kind} {cs : List Char} (h : operatorKinds? c = some kinds)
      (hcs : cs = [] ∨ cs = ['=']) : AfterHead c cs
  | slash (h : c = '/') : AfterHead c []
  | comment {body : List Char} (h : c = '/') (hb : '\n' ∉ body) : AfterHead c ('/' :: body)
  | string {body : List Char} (h : c = '"') (hb : '"' ∉ body) : AfterHead c (body ++ ['"'])
  | number {cs : List Char} (h : IsDigit c) (hn : IsNumber (c :: cs)) : AfterHead c cs
  | word {cs : List Char} (h : IsLetter c) (hcs : ∀ d ∈ cs, IsLetter d ∨ IsDigit d) :
      AfterHead c cs

theorem symbolText_afterHead {kind : Kind} {c : Char} {cs : List Char}
    (h : kind.symbolText = c :: cs) : AfterHead c cs := by
  cases kind <;> simp only [Kind.symbolText, reduceCtorEq, List.cons.injEq] at h <;>
    obtain ⟨rfl, rfl⟩ := h
  case slash => exact .slash rfl
  case bang | equal | greater | less => exact .operator rfl (.inl rfl)
  case bangEqual | equalEqual | greaterEqual | lessEqual => exact .operator rfl (.inr rfl)
  all_goals exact .single rfl

theorem IsWord.afterHead {c : Char} {cs : List Char} (h : IsWord (c :: cs)) : AfterHead c cs := by
  obtain ⟨_, _, heq, hc, hcs⟩ := h
  obtain ⟨rfl, rfl⟩ := List.cons.inj heq
  exact .word hc hcs

/-- **The first character of a token or a comment** says what can stand behind it. -/
theorem IsLexical.afterHead {c : Char} {cs : List Char} (h : IsLexical (c :: cs)) :
    AfterHead c cs := by
  generalize ht : c :: cs = text at h
  obtain ⟨kind, literal, hl⟩ | ⟨body, rfl, hb⟩ := h
  · cases hl with
    | symbol h => exact symbolText_afterHead ht.symm
    | keyword h => exact (ht ▸ isWord_of_mem_keywords h).afterHead
    | identifier h => exact (ht ▸ h).afterHead
    | number h => exact .number (ht ▸ h).head (ht ▸ h)
    | string h =>
      obtain ⟨rfl, rfl⟩ := List.cons.inj ht
      exact .string rfl h
  · obtain ⟨rfl, rfl⟩ := List.cons.inj ht
    exact .comment rfl hb

/-! ## The kinds of first characters exclude each other -/

theorem singleKind?_alone {c : Char} {kind : Kind} (h : singleKind? c = some kind) :
    operatorKinds? c = none ∧ c ≠ '/' ∧ c ≠ '"' ∧ isWordPart c = false := by
  unfold singleKind? at h
  split at h <;> first | decide | exact absurd h (by simp)

theorem operatorKinds?_alone {c : Char} {kinds : Kind × Kind} (h : operatorKinds? c = some kinds) :
    singleKind? c = none ∧ c ≠ '/' ∧ c ≠ '"' ∧ isWordPart c = false := by
  unfold operatorKinds? at h
  split at h <;> first | decide | exact absurd h (by simp)

theorem not_isDigit {c : Char} (hc : isWordPart c = false) : ¬IsDigit c := fun h => by
  simp [isWordPart_eq_true_iff.mpr (.inr h)] at hc

theorem not_isLetter {c : Char} (hc : isWordPart c = false) : ¬IsLetter c := fun h => by
  simp [isWordPart_eq_true_iff.mpr (.inl h)] at hc

namespace AfterHead

variable {c : Char} {cs : List Char}

theorem eq_nil_of_single {kind : Kind} (hc : singleKind? c = some kind) (h : AfterHead c cs) :
    cs = [] := by
  obtain ⟨ho, hs, hq, hw⟩ := singleKind?_alone hc
  cases h with
  | single | slash => rfl
  | operator h => exact absurd h (by simp [ho])
  | comment h => exact absurd h hs
  | string h => exact absurd h hq
  | number h => exact absurd h (not_isDigit hw)
  | word h => exact absurd h (not_isLetter hw)

theorem of_operator {kinds : Kind × Kind} (hc : operatorKinds? c = some kinds)
    (h : AfterHead c cs) : cs = [] ∨ cs = ['='] := by
  obtain ⟨ho, hs, hq, hw⟩ := operatorKinds?_alone hc
  cases h with
  | single | slash => exact .inl rfl
  | operator _ hcs => exact hcs
  | comment h => exact absurd h hs
  | string h => exact absurd h hq
  | number h => exact absurd h (not_isDigit hw)
  | word h => exact absurd h (not_isLetter hw)

theorem of_slash (h : AfterHead '/' cs) : cs = [] ∨ ∃ body, cs = '/' :: body := by
  cases h with
  | single | slash => exact .inl rfl
  | operator h => exact absurd h (by simp [operatorKinds?])
  | comment => exact .inr ⟨_, rfl⟩
  | string h => exact absurd h (by decide)
  | number h => exact absurd h (not_isDigit (by decide))
  | word h => exact absurd h (not_isLetter (by decide))

theorem of_quote (h : AfterHead '"' cs) : ∃ body, cs = body ++ ['"'] ∧ '"' ∉ body := by
  cases h with
  | single h => exact absurd h (by simp [singleKind?])
  | operator h => exact absurd h (by simp [operatorKinds?])
  | slash h | comment h => exact absurd h (by decide)
  | string _ hb => exact ⟨_, rfl, hb⟩
  | number h => exact absurd h (not_isDigit (by decide))
  | word h => exact absurd h (not_isLetter (by decide))

theorem of_digit (hc : IsDigit c) (h : AfterHead c cs) : IsNumber (c :: cs) := by
  cases h with
  | single h => exact absurd hc (not_isDigit (singleKind?_alone h).2.2.2)
  | operator h => exact absurd hc (not_isDigit (operatorKinds?_alone h).2.2.2)
  | slash h | comment h | string h => exact absurd hc (not_isDigit (by rw [h]; decide))
  | number _ hn => exact hn
  | word h => exact absurd h hc.not_isLetter

theorem of_letter (hc : IsLetter c) (h : AfterHead c cs) : ∀ d ∈ cs, IsLetter d ∨ IsDigit d := by
  cases h with
  | single h => exact absurd hc (not_isLetter (singleKind?_alone h).2.2.2)
  | operator h => exact absurd hc (not_isLetter (operatorKinds?_alone h).2.2.2)
  | slash h | comment h | string h => exact absurd hc (not_isLetter (by rw [h]; decide))
  | number h => exact absurd hc h.not_isLetter
  | word _ hcs => exact hcs

end AfterHead

end Lox
