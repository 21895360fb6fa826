import Lox.Proofs.Token.Lexeme
import Lox.Proofs.Text.SExpr

/-!
# How tokens are spelled

What the kind of a token says of its text. A symbol and a reserved word have one text each, a name
is a word that is not reserved, and but for parentheses, numbers and strings no text has a
parenthesis or a space in it.

## Main definitions

* `Token.IsLexeme t`: the token has the kind and the literal that its text has

## Main results

* `Lexeme.of_symbol`, `Lexeme.of_keyword`, `Lexeme.of_identifier`: the texts of a kind
* `isPlainWord_of_lexeme`: texts without delimiters
-/

namespace Lox

/-- The token has the kind and the literal that its text has. -/
def Token.IsLexeme (t : Token) : Prop :=
  Lexeme t.kind t.lexeme.toList t.literal

/-! ## Kinds and texts -/

variable {kind : Kind} {cs : List Char} {literal : Option Literal} {word : String}

theorem symbolText_of_mem_keywords (h : (word, kind) ∈ keywords) : kind.symbolText = [] := by
  have hall : ∀ entry ∈ keywords, entry.2.symbolText = [] := by decide
  exact hall _ h

/-- A token of the kind of a symbol is that symbol. -/
theorem Lexeme.of_symbol (h : Lexeme kind cs literal) (hk : kind.symbolText ≠ []) :
    cs = kind.symbolText ∧ literal = none := by
  cases h with
  | symbol => exact ⟨rfl, rfl⟩
  | keyword hmem => exact absurd (symbolText_of_mem_keywords hmem) hk
  | identifier | number | string => exact absurd rfl hk

/-- A token of the kind of a reserved word is that word. -/
theorem Lexeme.of_keyword (h : Lexeme kind cs literal) (hk : (word, kind) ∈ keywords) :
    cs = word.toList ∧ literal = none := by
  cases h with
  | symbol hne => exact absurd (symbolText_of_mem_keywords hk) hne
  | @keyword word' _ hmem =>
    have hall : ∀ entry ∈ keywords, ∀ entry' ∈ keywords, entry.2 = entry'.2 →
        entry.1 = entry'.1 := by decide
    have hword : word' = word := hall _ hmem _ hk rfl
    exact ⟨by rw [hword], rfl⟩
  | identifier | number | string => simp [keywords] at hk

/-- A token of the kind of names is a word that is not reserved. -/
theorem Lexeme.of_identifier (h : Lexeme .identifier cs literal) :
    IsWord cs ∧ (∀ kind, (String.ofList cs, kind) ∉ keywords) ∧ literal = none := by
  cases h with
  | symbol hne => exact absurd rfl hne
  | keyword hmem => simp [keywords] at hmem
  | identifier hw hk => exact ⟨hw, hk, rfl⟩

theorem Lexeme.of_number (h : Lexeme .number cs literal) :
    literal = some (.number (decimalValue cs)) := by
  cases h with
  | symbol hne => exact absurd rfl hne
  | keyword hmem => simp [keywords] at hmem
  | number => rfl

theorem Lexeme.of_string (h : Lexeme .string cs literal) : ∃ s, literal = some (.string s) := by
  cases h with
  | symbol hne => exact absurd rfl hne
  | keyword hmem => simp [keywords] at hmem
  | string => exact ⟨_, rfl⟩

/-! ## Delimiters -/

theorem IsLetter.not_isDelimiter {c : Char} (h : IsLetter c) : ¬IsDelimiter c := by
  have hstart := isWordStart_eq_true_iff.mpr h
  rintro (rfl | rfl | rfl) <;> exact absurd hstart (by decide)

theorem IsDigit.not_isDelimiter {c : Char} (h : IsDigit c) : ¬IsDelimiter c := by
  have hdigit := isDigit_eq_true_iff.mpr h
  rintro (rfl | rfl | rfl) <;> exact absurd hdigit (by decide)

/-- Symbols other than parentheses, reserved words and names have no delimiters in them. -/
theorem isPlainWord_of_lexeme {t : Token} (h : t.IsLexeme)
    (hk : t.kind ∉ [.leftParen, .rightParen, .number, .string]) : IsPlainWord t.lexeme := by
  refine ⟨h.ne_nil, ?_⟩
  unfold Token.IsLexeme at h
  generalize t.kind = kind, t.lexeme.toList = cs, t.literal = literal at h hk
  cases h with
  | symbol =>
    revert hk
    cases kind <;> decide
  | keyword hmem =>
    have hall : ∀ entry ∈ keywords, IsUnbroken entry.1.toList := by decide
    exact hall _ hmem
  | identifier hw =>
    obtain ⟨c, cs, rfl, hc, hcs⟩ := hw
    refine List.forall_mem_cons.mpr ⟨hc.not_isDelimiter, fun d hd => ?_⟩
    exact (hcs d hd).elim IsLetter.not_isDelimiter IsDigit.not_isDelimiter
  | number | string => simp at hk

end Lox
