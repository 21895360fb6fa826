import Lox.Proofs.Number.RoundTrip
import Mathlib

/-!
# Displayed numbers

The text that a finite number is displayed as says which number it is. In front of it stands the
sign; the rest begins with a digit and denotes the decimal that stands for the magnitude, whether it
is written with an exponent or without one.

## Main definitions

* `IsNumeral cs`: what the texts of finite numbers look like

## Main results

* `textValue_displayMagnitude`: what a displayed magnitude denotes
* `isNumeral_displayText`: a finite number is displayed as a numeral
* `displayText_injective`: finite numbers with one text are one number
-/

namespace Lox.Number

/-- The text has only characters of numbers, and begins with a sign or a digit. -/
def IsNumeral (cs : List Char) : Prop :=
  (∀ c ∈ cs, c.isDigit = true ∨ c ∈ ['.', 'e', '+', '-']) ∧
    ∃ c rest, cs = c :: rest ∧ (c.isDigit = true ∨ c = '-')

/-- The number is neither infinite nor undefined. -/
def IsFinite (x : Float) : Prop :=
  x.isNaN = false ∧ x.isInf = false

variable {x y : Float}

/-! ## Magnitudes -/

/-- A displayed magnitude denotes its decimal, and zero if there is none. -/
theorem textValue_displayMagnitude (plain : Bool) (o : Option Decimal) :
    textValue (displayMagnitude plain o) = o.elim 0 Decimal.value := by
  cases o with
  | none =>
    exact (Denotes.whole (allDigits_zeros 1) (List.cons_ne_nil _ _)
      (by simp [Nat.ofDigitChars_cons])).textValue_eq
  | some d =>
    rw [displayMagnitude]
    split
    · exact d.textValue_positional
    · exact d.textValue_mantissa 1

theorem mem_exponentText {width : ℕ} {e : ℤ} {c : Char} (h : c ∈ exponentText width e) :
    c.isDigit = true ∨ c ∈ ['.', 'e', '+', '-'] := by
  unfold exponentText at h
  rcases List.mem_cons.mp h with rfl | h
  · exact .inr (by decide)
  rcases List.mem_cons.mp h with rfl | h
  · split <;> exact .inr (by decide)
  rcases List.mem_append.mp h with h | h
  · exact .inl (allDigits_zeros _ c h)
  · exact .inl (allDigits_toDigits _ c h)

theorem mem_displayMagnitude {plain : Bool} {o : Option Decimal} {c : Char}
    (h : c ∈ displayMagnitude plain o) : c.isDigit = true ∨ c ∈ ['.', 'e', '+', '-'] := by
  have hplain {cs : List Char} {q : ℚ} (hq : Denotes cs q) (hc : c ∈ cs) :
      c.isDigit = true ∨ c ∈ ['.', 'e', '+', '-'] :=
    (hq.isDigit_or_eq c hc).imp_right fun h => by simp [h]
  cases o with
  | none => exact .inl (allDigits_zeros 1 c h)
  | some d =>
    rw [displayMagnitude] at h
    split at h
    · exact hplain d.denotes_positional h
    · rcases List.mem_append.mp h with h | h
      · exact hplain d.denotes_mantissa h
      · exact mem_exponentText h

/-- A displayed magnitude begins with a digit. -/
theorem head_displayMagnitude (plain : Bool) (o : Option Decimal) :
    ∃ c rest, displayMagnitude plain o = c :: rest ∧ c.isDigit = true := by
  cases o with
  | none => exact ⟨'0', [], rfl, rfl⟩
  | some d =>
    rw [displayMagnitude]
    split
    · exact d.denotes_positional.head
    · obtain ⟨c, rest, heq, hc⟩ := d.denotes_mantissa.head
      exact ⟨c, _, by rw [heq, List.cons_append], hc⟩

/-! ## Texts -/

theorem toList_displayText (h : IsFinite x) :
    (displayText x).toList = sign x ++ displayMagnitude (isPlainRange x) (decimal? x) := by
  rw [displayText, if_neg (ne_true_of_eq_false h.1), if_neg (ne_true_of_eq_false h.2),
    String.toList_ofList]

/-- A finite number is displayed as a numeral. -/
theorem isNumeral_displayText (h : IsFinite x) : IsNumeral (displayText x).toList := by
  rw [toList_displayText h]
  obtain ⟨c, rest, heq, hc⟩ := head_displayMagnitude (isPlainRange x) (decimal? x)
  unfold sign
  by_cases hn : isNegative x = true
  · rw [if_pos hn]
    refine ⟨fun d hd => ?_, '-', _, rfl, .inr rfl⟩
    rcases List.mem_cons.mp hd with rfl | hd
    · exact .inr (by decide)
    · exact mem_displayMagnitude hd
  · rw [if_neg hn]
    exact ⟨fun d hd => mem_displayMagnitude hd, c, rest, heq, .inl hc⟩

/-- The sign and the magnitude can be told apart. -/
theorem sign_append_inj {cs ds : List Char} (hx : ∃ c rest, cs = c :: rest ∧ c.isDigit = true)
    (hy : ∃ c rest, ds = c :: rest ∧ c.isDigit = true) (h : sign x ++ cs = sign y ++ ds) :
    isNegative x = isNegative y ∧ cs = ds := by
  obtain ⟨c, cs, rfl, hc⟩ := hx
  obtain ⟨d, ds, rfl, hd⟩ := hy
  unfold sign at h
  cases hx : isNegative x <;> cases hy : isNegative y <;>
    simp only [hx, hy, if_true, List.singleton_append, Bool.false_eq_true, if_false,
      List.nil_append, List.cons.injEq] at h
  case false.false => exact ⟨rfl, List.cons_eq_cons.mpr h⟩
  case true.true => exact ⟨rfl, List.cons_eq_cons.mpr h.2⟩
  case false.true => exact absurd (h.1 ▸ hc) (by decide)
  case true.false => exact absurd (h.1 ▸ hd) (by decide)

/-! ## Injectivity -/

/-- Doubles of one displayed value have one significand and one exponent. -/
theorem Dyadic.IsDouble.eq_of_displayed {m m' : Dyadic} (hm : m.IsDouble) (hm' : m'.IsDouble)
    (h : (if m.significand = 0 then none else some m.shortest).elim 0 Decimal.value =
      (if m'.significand = 0 then none else some m'.shortest).elim 0 Decimal.value) :
    m.significand = m'.significand ∧ m.exponent = m'.exponent := by
  by_cases hz : m.significand = 0 <;> by_cases hz' : m'.significand = 0 <;>
    simp only [hz, hz', if_true, if_false, Option.elim_none, Option.elim_some] at h
  · have hl := hm.least
    have hl' := hm'.least
    have hn := hm.normal
    have hn' := hm'.normal
    omega
  · have hpos := (rounds_shortest (Nat.pos_of_ne_zero hz')).pos (Nat.pos_of_ne_zero hz')
    exact absurd h hpos.ne
  · have hpos := (rounds_shortest (Nat.pos_of_ne_zero hz)).pos (Nat.pos_of_ne_zero hz)
    exact absurd h hpos.ne'
  · have hq := rounds_shortest (Nat.pos_of_ne_zero hz)
    have hq' := rounds_shortest (Nat.pos_of_ne_zero hz')
    rw [h] at hq
    exact hm.eq_of_rounds hm' hq hq'

theorem shiftRight_eq_of_isNegative (h : isNegative x = isNegative y) :
    x.toBits >>> 63 = y.toBits >>> 63 := by
  have hbit (b : UInt64) : (b >>> 63).toNat = b.toNat / 2 ^ 63 := by
    rw [UInt64.toNat_shiftRight, ← Nat.shiftRight_eq_div_pow]
    rfl
  have hone (b : UInt64) : (b >>> 63 == 1) = true ↔ b.toNat / 2 ^ 63 = 1 := by
    rw [beq_iff_eq, ← UInt64.toNat_inj, hbit]
    rfl
  have hiff : x.toBits.toNat / 2 ^ 63 = 1 ↔ y.toBits.toNat / 2 ^ 63 = 1 := by
    rw [← hone, ← hone]
    exact Bool.eq_iff_iff.mp h
  have hx := x.toBits.toNat_lt
  have hy := y.toBits.toNat_lt
  refine UInt64.toNat_inj.mp ?_
  rw [hbit, hbit]
  omega

/-- **Displayed numbers.** Two finite numbers that are displayed as the same text are one number. -/
theorem displayText_injective (hx : IsFinite x) (hy : IsFinite y)
    (h : displayText x = displayText y) : x = y := by
  have htext := congrArg String.toList h
  rw [toList_displayText hx, toList_displayText hy] at htext
  obtain ⟨hs, hm⟩ := sign_append_inj (head_displayMagnitude ..) (head_displayMagnitude ..) htext
  have hvalue := congrArg textValue hm
  rw [textValue_displayMagnitude, textValue_displayMagnitude] at hvalue
  obtain ⟨hf, he⟩ := (Dyadic.isDouble_ofBits x.toBits).eq_of_displayed
    (Dyadic.isDouble_ofBits y.toBits) hvalue
  exact Float.toBits_inj.mp (Dyadic.eq_of_ofBits (shiftRight_eq_of_isNegative hs) hf he)

end Lox.Number
