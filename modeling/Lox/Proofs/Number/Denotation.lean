import Lox.Number.Layout
import Mathlib.Algebra.Order.Field.Power
import Mathlib.Data.List.TakeWhile
import Mathlib.Data.Rat.Cast.Order
import Mathlib.Tactic.FieldSimp
import Mathlib.Tactic.Positivity
import Mathlib.Tactic.Ring

/-!
# What number texts denote

A text of a number has digits, perhaps a point among them, and perhaps an exponent behind them. It
denotes a rational number, whatever form it has; both forms of a decimal denote that decimal, so a
text says which number it stands for and not how it has come about.

## Main definitions

* `Decimal.value d`: the rational number that a decimal is
* `positionalValue cs`, `exponentValue cs`, `textValue cs`: what texts denote
* `Denotes cs q`: the text `cs` has no exponent, and denotes `q`

## Main results

* `Decimal.textValue_positional`: the text without an exponent denotes the decimal
* `Decimal.textValue_mantissa`: so does the text with an exponent
-/

namespace Lox.Number

/-- The rational number that a decimal is. -/
def Decimal.value (d : Decimal) : ℚ :=
  d.digits * 10 ^ d.exponent

/-- What digits denote that may have a point among them. -/
def positionalValue (cs : List Char) : ℚ :=
  Nat.ofDigitChars 10 (cs.filter (· ≠ '.')) 0 *
    10 ^ (-(((cs.dropWhile (· ≠ '.')).length - 1 : Nat) : ℤ))

/-- What an exponent denotes, with the letter and the sign in front of it. -/
def exponentValue : List Char → ℤ
  | 'e' :: '-' :: ds => -(Nat.ofDigitChars 10 ds 0 : ℤ)
  | 'e' :: '+' :: ds => Nat.ofDigitChars 10 ds 0
  | _ => 0

/-- What the text of a number without a sign denotes. -/
def textValue (cs : List Char) : ℚ :=
  positionalValue (cs.takeWhile (· ≠ 'e')) * 10 ^ exponentValue (cs.dropWhile (· ≠ 'e'))

/-! ## Digits -/

/-- All characters are digits. -/
def AllDigits (cs : List Char) : Prop :=
  ∀ c ∈ cs, c.isDigit = true

variable {cs ds es : List Char}

theorem AllDigits.append (h : AllDigits ds) (h' : AllDigits es) : AllDigits (ds ++ es) :=
  List.forall_mem_append.mpr ⟨h, h'⟩

theorem allDigits_toDigits (n : Nat) : AllDigits (Nat.toDigits 10 n) :=
  fun _ hc => Nat.isDigit_of_mem_toDigits (by decide) (by decide) hc

theorem allDigits_zeros (n : Nat) : AllDigits (List.replicate n '0') := by
  intro c hc
  rw [List.eq_of_mem_replicate hc]
  rfl

/-- A digit is neither a point nor the letter in front of an exponent. -/
theorem AllDigits.ne {d : Char} (h : AllDigits ds) (hd : d.isDigit = false) :
    ∀ c ∈ ds, decide (c ≠ d) = true := by
  intro c hc
  refine decide_eq_true ?_
  rintro rfl
  exact absurd (h _ hc) (by simp [hd])

theorem ofDigitChars_zeros_append (n : Nat) (ds : List Char) :
    Nat.ofDigitChars 10 (List.replicate n '0' ++ ds) 0 = Nat.ofDigitChars 10 ds 0 := by
  rw [Nat.ofDigitChars_append, Nat.ofDigitChars_replicate_zero, Nat.mul_zero]

theorem ofDigitChars_append_zeros (n : Nat) (ds : List Char) :
    Nat.ofDigitChars 10 (ds ++ List.replicate n '0') 0 = 10 ^ n * Nat.ofDigitChars 10 ds 0 := by
  rw [Nat.ofDigitChars_append, Nat.ofDigitChars_replicate_zero]

namespace Decimal

variable (d : Decimal)

theorem allDigits_digitChars : AllDigits d.digitChars :=
  allDigits_toDigits d.digits

theorem ofDigitChars_digitChars : Nat.ofDigitChars 10 d.digitChars 0 = d.digits :=
  Nat.ofDigitChars_ten_toDigits

theorem length_digitChars_pos : 0 < d.digitChars.length :=
  List.length_pos_iff.mpr Nat.toDigits_ne_nil

end Decimal

/-! ## Digits with a point -/

/-- The characters are digits, with a point among them or without one, and denote the number. -/
inductive Denotes : List Char → ℚ → Prop
  | whole {ds : List Char} {q : ℚ} (h : AllDigits ds) (hne : ds ≠ [])
      (hq : (Nat.ofDigitChars 10 ds 0 : ℚ) = q) : Denotes ds q
  /-- the point divides by ten for each digit behind it -/
  | fraction {ds es : List Char} {q : ℚ} (h : AllDigits ds) (hne : ds ≠ []) (h' : AllDigits es)
      (hne' : es ≠ [])
      (hq : (Nat.ofDigitChars 10 (ds ++ es) 0 : ℚ) * 10 ^ (-(es.length : ℤ)) = q) :
      Denotes (ds ++ '.' :: es) q

namespace Denotes

variable {q : ℚ}

theorem positionalValue_eq (h : Denotes cs q) : positionalValue cs = q := by
  cases h with
  | whole h _ hq =>
    have hne := h.ne (d := '.') rfl
    rw [positionalValue, List.filter_eq_self.mpr hne, List.dropWhile_eq_nil_iff.mpr hne, ← hq]
    simp
  | fraction h _ h' _ hq =>
    have hne := h.ne (d := '.') rfl
    rw [positionalValue, List.filter_append, List.filter_eq_self.mpr hne,
      List.filter_cons_of_neg (by decide), List.filter_eq_self.mpr (h'.ne (d := '.') rfl),
      List.dropWhile_append_of_pos hne, List.dropWhile_cons_of_neg (by decide), List.length_cons,
      Nat.add_sub_cancel, hq]

theorem isDigit_or_eq (h : Denotes cs q) : ∀ c ∈ cs, c.isDigit = true ∨ c = '.' := by
  intro c hc
  cases h with
  | whole h => exact .inl (h c hc)
  | fraction h _ h' =>
    rcases List.mem_append.mp hc with hc | hc
    · exact .inl (h c hc)
    · rcases List.mem_cons.mp hc with rfl | hc
      · exact .inr rfl
      · exact .inl (h' c hc)

/-- Neither digits nor the point begin an exponent. -/
theorem ne_e (h : Denotes cs q) : ∀ c ∈ cs, decide (c ≠ 'e') = true := by
  intro c hc
  refine decide_eq_true ?_
  rintro rfl
  exact absurd (h.isDigit_or_eq _ hc) (by decide)

/-- A digit comes first. -/
theorem head (h : Denotes cs q) : ∃ d ds, cs = d :: ds ∧ d.isDigit = true := by
  cases h with
  | whole h hne | fraction h hne =>
    obtain ⟨d, ds, rfl⟩ := List.exists_cons_of_ne_nil hne
    exact ⟨d, _, rfl, h d List.mem_cons_self⟩

end Denotes

/-! ## Digits with an exponent -/

theorem Denotes.textValue_eq {q : ℚ} (h : Denotes cs q) : textValue cs = q := by
  rw [textValue, List.takeWhile_eq_self_iff.mpr h.ne_e, List.dropWhile_eq_nil_iff.mpr h.ne_e,
    h.positionalValue_eq]
  simp [exponentValue]

theorem exponentValue_exponentText (width : Nat) (e : ℤ) :
    exponentValue (exponentText width e) = e := by
  unfold exponentText
  by_cases he : e < 0
  · rw [if_pos he]
    simp only [exponentValue, ofDigitChars_zeros_append, Nat.ofDigitChars_ten_toDigits]
    omega
  · rw [if_neg he]
    simp only [exponentValue, ofDigitChars_zeros_append, Nat.ofDigitChars_ten_toDigits]
    omega

/-- The exponent multiplies by a power of ten. -/
theorem Denotes.textValue_append {q : ℚ} (h : Denotes cs q) (width : Nat) (e : ℤ) :
    textValue (cs ++ exponentText width e) = q * 10 ^ e := by
  have hcons : exponentText width e = 'e' :: (exponentText width e).tail := rfl
  rw [textValue, hcons, List.takeWhile_append_of_pos h.ne_e, List.dropWhile_append_of_pos h.ne_e,
    List.takeWhile_cons_of_neg (by decide), List.dropWhile_cons_of_neg (by decide), ← hcons,
    exponentValue_exponentText, List.append_nil, h.positionalValue_eq]

/-! ## The texts of a decimal -/

namespace Decimal

theorem denotes_positional (d : Decimal) : Denotes d.positional d.value := by
  have hdigits := d.allDigits_digitChars
  have hvalue := d.ofDigitChars_digitChars
  have hpos := d.length_digitChars_pos
  have hpoint : d.point = d.digitChars.length + d.exponent := rfl
  unfold positional value
  by_cases he : 0 ≤ d.exponent
  · -- zeros take the place of the exponent
    rw [if_pos he]
    refine .whole (hdigits.append (allDigits_zeros _))
      (List.append_ne_nil_of_left_ne_nil (List.length_pos_iff.mp hpos) _) ?_
    obtain ⟨n, hn⟩ := Int.eq_ofNat_of_zero_le he
    rw [ofDigitChars_append_zeros, hvalue, hn, Int.toNat_natCast, zpow_natCast]
    push_cast
    ring
  simp only [if_neg he]
  by_cases hp : d.point ≤ 0
  · -- the digits stand behind the point, with zeros in between
    rw [if_pos hp]
    have hlength : ((List.replicate (-d.point).toNat '0' ++ d.digitChars).length : ℤ) =
        -d.exponent := by
      rw [List.length_append, List.length_replicate]
      omega
    refine .fraction (show AllDigits ['0'] from allDigits_zeros 1) (List.cons_ne_nil _ _)
      ((allDigits_zeros _).append hdigits)
      (List.append_ne_nil_of_right_ne_nil _ (List.length_pos_iff.mp hpos)) ?_
    rw [← List.replicate_one, ofDigitChars_zeros_append, ofDigitChars_zeros_append, hvalue, hlength,
      neg_neg]
  · -- the point stands between the digits
    rw [if_neg hp]
    have hlength : ((d.digitChars.drop d.point.toNat).length : ℤ) = -d.exponent := by
      rw [List.length_drop]
      omega
    refine .fraction (fun c hc => hdigits c (List.mem_of_mem_take hc)) (List.length_pos_iff.mp ?_)
      (fun c hc => hdigits c (List.mem_of_mem_drop hc)) (List.length_pos_iff.mp ?_) ?_
    · rw [List.length_take]
      omega
    · omega
    · rw [List.take_append_drop, hvalue, hlength, neg_neg]

/-- A mantissa is the decimal with the point behind the leading digit. -/
theorem denotes_mantissa (d : Decimal) :
    Denotes d.mantissa (d.digits * 10 ^ (-(d.digitChars.length - 1 : ℤ))) := by
  have hdigits := d.allDigits_digitChars
  have hvalue := d.ofDigitChars_digitChars
  have hne : d.digitChars ≠ [] := List.length_pos_iff.mp d.length_digitChars_pos
  unfold mantissa
  generalize d.digitChars = cs at *
  rcases cs with _ | ⟨first, _ | ⟨second, cs⟩⟩
  · exact absurd rfl hne
  · refine .whole hdigits hne ?_
    rw [hvalue]
    simp
  · obtain ⟨hfirst, hrest⟩ := List.forall_mem_cons.mp hdigits
    refine .fraction (show AllDigits [first] by simpa [AllDigits] using hfirst)
      (List.cons_ne_nil _ _) hrest (List.cons_ne_nil _ _) ?_
    rw [List.singleton_append, hvalue]
    simp

/-- The text without an exponent denotes the decimal. -/
theorem textValue_positional (d : Decimal) : textValue d.positional = d.value :=
  d.denotes_positional.textValue_eq

/-- The text with an exponent denotes the decimal. -/
theorem textValue_mantissa (d : Decimal) (width : Nat) :
    textValue (d.mantissa ++ exponentText width d.leading) = d.value := by
  have hleading : d.leading = d.digitChars.length + d.exponent - 1 := rfl
  rw [d.denotes_mantissa.textValue_append, mul_assoc, ← zpow_add₀ (by norm_num), value, hleading]
  congr 2
  omega

end Decimal

end Lox.Number
