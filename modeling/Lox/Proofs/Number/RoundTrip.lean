import Lox.Proofs.Number.Denotation
import Mathlib.Tactic.Linarith
import Mathlib.Tactic.NormNum

/-!
# Shortest decimals read back

The numbers that round to a double form an interval, and the intervals of different doubles have no
number in common. The decimal that stands for a double lies in its interval, whichever of the grids
it was found on, so no other double has the same decimal.

Neighbours share an end of their intervals. It belongs to the one with the even significand, and of
two neighbours with one exponent only one is even; where the exponent changes, the significand of
the greater one is even and that of the smaller one is odd.

## Main definitions

* `Dyadic.Rounds x q`: the rational number `q` rounds to `x`
* `Dyadic.IsDouble x`: `x` is the magnitude of a double

## Main results

* `Dyadic.readsBack_iff`: the decimals that read back are those that round to the value
* `Dyadic.rounds_shortest`: the decimal that stands for a value rounds to it
* `Dyadic.IsDouble.eq_of_rounds`: a rational number rounds to one double
-/

namespace Lox.Number

/-! ## Comparisons -/

theorem tenPower_eq (i : ℤ) : (tenPower i : ℚ) = 10 ^ i * tenPower (-i) := by
  unfold tenPower
  simp only [Nat.pow_eq, Nat.cast_pow, Nat.cast_ofNat]
  rw [← zpow_natCast, ← zpow_natCast, ← zpow_add₀ (by norm_num)]
  congr 1
  omega

theorem twoPower_eq (j : ℤ) : (twoPower j : ℚ) = 2 ^ j * twoPower (-j) := by
  unfold twoPower
  simp only [Nat.pow_eq, Nat.cast_pow, Nat.cast_ofNat]
  rw [← zpow_natCast, ← zpow_natCast, ← zpow_add₀ (by norm_num)]
  congr 1
  omega

theorem compare_eq_of_mul {p q k : ℚ} (hk : 0 < k) {m n : ℕ} (hm : (m : ℚ) = p * k)
    (hn : (n : ℚ) = q * k) : compare m n = compare p q := by
  rcases lt_trichotomy p q with h | h | h
  · have hlt : (m : ℚ) < n := by
      rw [hm, hn]
      exact mul_lt_mul_of_pos_right h hk
    rw [compare_lt_iff_lt.mpr h, compare_lt_iff_lt.mpr (by exact_mod_cast hlt)]
  · have heq : (m : ℚ) = n := by rw [hm, hn, h]
    rw [compare_eq_iff_eq.mpr h, compare_eq_iff_eq.mpr (by exact_mod_cast heq)]
  · have hlt : (n : ℚ) < m := by
      rw [hm, hn]
      exact mul_lt_mul_of_pos_right h hk
    rw [compare_gt_iff_gt.mpr h, compare_gt_iff_gt.mpr (by exact_mod_cast hlt)]

/-- The comparison of whole numbers is that of the rational ones. -/
theorem compareScaled_eq (a : ℕ) (i : ℤ) (n : ℕ) (j : ℤ) :
    compareScaled a i n j = compare ((a : ℚ) * 10 ^ i) (n * 2 ^ j) := by
  have hten : (0 : ℚ) < tenPower (-i) := by
    unfold tenPower
    exact_mod_cast Nat.pow_pos (by norm_num)
  have htwo : (0 : ℚ) < twoPower (-j) := by
    unfold twoPower
    exact_mod_cast Nat.pow_pos (by norm_num)
  refine compare_eq_of_mul (mul_pos hten htwo) ?_ ?_
  · rw [Nat.cast_mul, Nat.cast_mul, tenPower_eq i]
    ring
  · rw [Nat.cast_mul, Nat.cast_mul, twoPower_eq j]
    ring

/-! ## The interval of a value -/

namespace Dyadic

/-- The lower end of the interval, in quarters of the unit of the significand. -/
def low (x : Dyadic) : ℕ :=
  if x.narrowBelow then 4 * x.significand - 1 else 4 * x.significand - 2

/-- The upper end of the interval, in the same unit. -/
def high (x : Dyadic) : ℕ :=
  4 * x.significand + 2

/-- The rational number rounds to the value: it lies between the ends, or is one of them and the
significand is even. -/
def Rounds (x : Dyadic) (q : ℚ) : Prop :=
  (x.low * 2 ^ (x.exponent - 2) < q ∨ x.significand % 2 = 0 ∧ x.low * 2 ^ (x.exponent - 2) = q) ∧
    (q < x.high * 2 ^ (x.exponent - 2) ∨
      x.significand % 2 = 0 ∧ q = x.high * 2 ^ (x.exponent - 2))

/-- The decimals that read back are those that round to the value. -/
theorem readsBack_iff {x : Dyadic} {d : Decimal} : x.readsBack d = true ↔ x.Rounds d.value := by
  unfold readsBack Rounds
  simp only [Bool.and_eq_true, Bool.or_eq_true, beq_iff_eq, compareScaled_eq, compare_gt_iff_gt,
    compare_eq_iff_eq, compare_lt_iff_lt]
  rw [eq_comm (a := d.digits * (10 : ℚ) ^ d.exponent)]
  rfl

variable {x y : Dyadic}

theorem two_zpow_pos (j : ℤ) : (0 : ℚ) < 2 ^ j :=
  zpow_pos (by norm_num) j

/-- What rounds to a positive value is positive. -/
theorem Rounds.pos {q : ℚ} (h : x.Rounds q) (hx : 0 < x.significand) : 0 < q := by
  have hlow : 0 < x.low := by
    unfold low
    split <;> omega
  have hpos : (0 : ℚ) < x.low * 2 ^ (x.exponent - 2) :=
    mul_pos (by exact_mod_cast hlow) (two_zpow_pos _)
  rcases h.1 with h | ⟨-, h⟩
  · exact hpos.trans h
  · exact h ▸ hpos

/-! ## The decimal that stands for a value -/

theorem value_exactDecimal (x : Dyadic) :
    x.exactDecimal.value = x.significand * 2 ^ x.exponent := by
  unfold exactDecimal Decimal.value
  by_cases he : 0 ≤ x.exponent
  · obtain ⟨n, hn⟩ := Int.eq_ofNat_of_zero_le he
    rw [if_pos he, hn]
    simp [twoPower]
  · obtain ⟨n, hn⟩ : ∃ n : ℕ, x.exponent = -n := ⟨(-x.exponent).toNat, by omega⟩
    rw [if_neg he, hn]
    have hten : (10 : ℚ) = 5 * 2 := by norm_num
    simp only [neg_neg, Int.toNat_natCast, Nat.pow_eq, Nat.cast_mul, Nat.cast_pow, Nat.cast_ofNat,
      zpow_neg, zpow_natCast, hten, mul_pow]
    field_simp

/-- A value rounds to itself. -/
theorem rounds_self (hx : 0 < x.significand) : x.Rounds (x.significand * 2 ^ x.exponent) := by
  have hunit : (x.significand : ℚ) * 2 ^ x.exponent =
      (4 * x.significand : ℕ) * 2 ^ (x.exponent - 2) := by
    rw [zpow_sub₀ (by norm_num)]
    push_cast
    ring
  have hlow : x.low < 4 * x.significand := by
    unfold low
    split <;> omega
  have hhigh : 4 * x.significand < x.high := Nat.lt_add_of_pos_right (by decide)
  rw [hunit]
  constructor
  · exact .inl (mul_lt_mul_of_pos_right (by exact_mod_cast hlow) (two_zpow_pos _))
  · exact .inl (mul_lt_mul_of_pos_right (by exact_mod_cast hhigh) (two_zpow_pos _))

/-- What is found on a grid reads back. -/
theorem readsBack_of_nearest? {i : ℤ} {d : Decimal} (h : x.nearest? i = some d) :
    x.readsBack d = true := by
  unfold nearest? at h
  simp only at h
  split at h
  · cases h
  · rename_i hlower hupper
    exact Option.some.inj h ▸ hlower
  · rename_i hlower hupper
    exact Option.some.inj h ▸ hupper
  · -- if both neighbours read back, one of them is taken
    rename_i hlower hupper
    split at h
    · exact Option.some.inj h ▸ hlower
    · exact Option.some.inj h ▸ hupper
    · split at h
      · exact Option.some.inj h ▸ hlower
      · exact Option.some.inj h ▸ hupper

end Dyadic

/-- A zero at the end of the digits may stand in the exponent. -/
theorem Decimal.value_stripZeros (fuel : ℕ) (d : Decimal) :
    (d.stripZeros fuel).value = d.value := by
  induction fuel generalizing d with
  | zero => rfl
  | succ fuel ih =>
    rw [stripZeros]
    split
    · rename_i h
      obtain ⟨n, hn⟩ := Nat.dvd_of_mod_eq_zero h
      rw [ih, value, value, hn, Nat.mul_div_cancel_left n (by decide), zpow_add₀ (by norm_num)]
      push_cast
      ring
    · rfl

namespace Dyadic

variable {x y : Dyadic}

/-- The decimal that stands for a value rounds to it. -/
theorem rounds_shortest (hx : 0 < x.significand) : x.Rounds x.shortest.value := by
  unfold shortest
  simp only [Decimal.value_stripZeros]
  cases hf : (List.range 17).findSome? fun n => x.nearest? (x.scale - (n + 1 : ℕ)) with
  | none =>
    rw [Option.getD_none, value_exactDecimal]
    exact rounds_self hx
  | some d =>
    obtain ⟨n, -, hn⟩ := List.exists_of_findSome?_eq_some hf
    exact readsBack_iff.mp (readsBack_of_nearest? hn)

/-! ## Intervals of doubles -/

/-- The magnitude of a double: its significand has at most 53 bits, and exactly 53 if the exponent
is not the least one. -/
structure IsDouble (x : Dyadic) : Prop where
  bound : x.significand < 2 ^ 53
  least : -1074 ≤ x.exponent
  normal : -1074 < x.exponent → 2 ^ 52 ≤ x.significand
  narrow : x.narrowBelow = true ↔ x.significand = 2 ^ 52 ∧ -1074 < x.exponent

/-- In the unit of a value whose exponent is smaller, the lower end is a natural number. -/
theorem low_mul_zpow {k : ℕ} (hk : y.exponent = x.exponent + k) :
    (y.low : ℚ) * 2 ^ (y.exponent - 2) = (y.low * 2 ^ k : ℕ) * 2 ^ (x.exponent - 2) := by
  rw [hk, add_sub_right_comm, zpow_add₀ (by norm_num), zpow_natCast]
  push_cast
  ring

/-- A number in two intervals lies between the lower end of the one and the upper end of the other;
and if these ends meet, then both significands are even. -/
theorem Rounds.low_le_high {q : ℚ} {k : ℕ} (hk : y.exponent = x.exponent + k) (hx : x.Rounds q)
    (hy : y.Rounds q) : y.low * 2 ^ k ≤ x.high ∧
      (y.low * 2 ^ k = x.high → x.significand % 2 = 0 ∧ y.significand % 2 = 0) := by
  have hunit := low_mul_zpow hk
  constructor
  · have hlow : (y.low : ℚ) * 2 ^ (y.exponent - 2) ≤ q := hy.1.elim le_of_lt fun h => h.2.le
    have hhigh : q ≤ x.high * 2 ^ (x.exponent - 2) := hx.2.elim le_of_lt fun h => h.2.le
    have hle := hlow.trans hhigh
    rw [hunit] at hle
    exact_mod_cast le_of_mul_le_mul_right hle (two_zpow_pos _)
  · intro heq
    rw [heq] at hunit
    rcases hy.1 with h | ⟨hyeven, h⟩
    · rcases hx.2 with h' | ⟨-, h'⟩
      · exact absurd (h.trans h') (by rw [hunit]; exact lt_irrefl _)
      · exact absurd (h'.symm ▸ hunit ▸ h) (lt_irrefl _)
    · rcases hx.2 with h' | ⟨hxeven, -⟩
      · exact absurd h' (by rw [← h, hunit]; exact lt_irrefl _)
      · exact ⟨hxeven, hyeven⟩

theorem le_low (x : Dyadic) : 4 * x.significand - 2 ≤ x.low := by
  unfold low
  split <;> omega

/-- Above the least exponent, an interval begins at most a quarter of the unit below the least
significand, where it is narrow. -/
theorem IsDouble.le_low_of_normal (hx : x.IsDouble) (he : -1074 < x.exponent) :
    2 ^ 54 - 1 ≤ x.low := by
  have hnormal := hx.normal he
  unfold low
  split
  · omega
  · rename_i hn
    have hne : x.significand ≠ 2 ^ 52 := fun h => hn (hx.narrow.mpr ⟨h, he⟩)
    omega

/-- A smaller double lies below a greater one with its whole interval. -/
theorem IsDouble.not_rounds {q : ℚ} (hx : x.IsDouble) (hy : y.IsDouble)
    (h : x.exponent < y.exponent ∨ x.exponent = y.exponent ∧ x.significand < y.significand)
    (hq : x.Rounds q) : ¬y.Rounds q := by
  intro hq'
  obtain ⟨k, hk⟩ : ∃ k : ℕ, y.exponent = x.exponent + k :=
    ⟨(y.exponent - x.exponent).toNat, by omega⟩
  obtain ⟨hle, hend⟩ := hq.low_le_high hk hq'
  have hhigh : x.high = 4 * x.significand + 2 := rfl
  have hbound := hx.bound
  rcases h with h | ⟨h, hlt⟩
  · -- a number with a greater exponent is at least twice the least significand
    have hlow := hy.le_low_of_normal (lt_of_le_of_lt hx.least h)
    have hmul : y.low * 2 ≤ y.low * 2 ^ k :=
      Nat.mul_le_mul_left _ (Nat.le_self_pow (by omega) 2)
    have := hend (by omega)
    omega
  · have hlow := y.le_low
    obtain rfl : k = 0 := by omega
    rw [pow_zero, Nat.mul_one] at hle hend
    have := hend (by omega)
    omega

/-- A rational number rounds to one double. -/
theorem IsDouble.eq_of_rounds {q : ℚ} (hx : x.IsDouble) (hy : y.IsDouble) (hq : x.Rounds q)
    (hq' : y.Rounds q) : x.significand = y.significand ∧ x.exponent = y.exponent := by
  have h := mt (hx.not_rounds hy · hq) (not_not_intro hq')
  have h' := mt (hy.not_rounds hx · hq') (not_not_intro hq)
  omega

/-! ## Bits -/

theorem ofBits_eq (b : UInt64) :
    ofBits b =
      if b.toNat / 2 ^ 52 % 2 ^ 11 = 0 then ⟨b.toNat % 2 ^ 52, -1074, false⟩
      else ⟨2 ^ 52 + b.toNat % 2 ^ 52, (b.toNat / 2 ^ 52 % 2 ^ 11 : ℕ) - 1075,
        b.toNat % 2 ^ 52 == 0 && b.toNat / 2 ^ 52 % 2 ^ 11 > 1⟩ := by
  have he : ((b >>> 52) &&& 0x7FF).toNat = b.toNat / 2 ^ 52 % 2 ^ 11 := by
    rw [UInt64.toNat_and, UInt64.toNat_shiftRight, ← Nat.shiftRight_eq_div_pow]
    exact Nat.and_two_pow_sub_one_eq_mod _ 11
  have hf : (b &&& 0xFFFFFFFFFFFFF).toNat = b.toNat % 2 ^ 52 := by
    rw [UInt64.toNat_and]
    exact Nat.and_two_pow_sub_one_eq_mod _ 52
  unfold ofBits
  simp only [he, hf]
  rfl

theorem isDouble_ofBits (b : UInt64) : (ofBits b).IsDouble := by
  have hf : b.toNat % 2 ^ 52 < 2 ^ 52 := Nat.mod_lt _ (by decide)
  rw [ofBits_eq]
  generalize b.toNat % 2 ^ 52 = f, b.toNat / 2 ^ 52 % 2 ^ 11 = e at *
  split
  · refine ⟨by simp only; omega, le_refl _, fun h => absurd h (lt_irrefl _), ?_⟩
    simp only [Bool.false_eq_true, false_iff]
    omega
  · refine ⟨by simp only; omega, by simp only; omega, fun _ => Nat.le_add_right .., ?_⟩
    simp only [Bool.and_eq_true, beq_iff_eq, decide_eq_true_eq]
    omega

/-- The sign, the significand and the exponent are all that there is in the bits. -/
theorem eq_of_ofBits {b b' : UInt64} (hs : b >>> 63 = b' >>> 63)
    (hf : (ofBits b).significand = (ofBits b').significand)
    (he : (ofBits b).exponent = (ofBits b').exponent) : b = b' := by
  have hsign : b.toNat / 2 ^ 63 = b'.toNat / 2 ^ 63 := by
    have h := congrArg UInt64.toNat hs
    rw [UInt64.toNat_shiftRight, UInt64.toNat_shiftRight] at h
    simpa [Nat.shiftRight_eq_div_pow] using h
  have hb := b.toNat_lt
  have hb' := b'.toNat_lt
  rw [ofBits_eq, ofBits_eq] at hf he
  refine UInt64.toNat_inj.mp ?_
  by_cases h : b.toNat / 2 ^ 52 % 2 ^ 11 = 0 <;> by_cases h' : b'.toNat / 2 ^ 52 % 2 ^ 11 = 0 <;>
    simp only [h, h', if_true, if_false] at hf he <;> omega

end Dyadic

end Lox.Number
