import Lox.Proofs.Number.Display

/-!
# Magnitudes

The magnitude of a float is the float without its sign. It is computed by taking the float apart,
dropping the sign and putting the rest together again. In the bits the sign is the first one, and
nothing else of them is lost; so the same decimal stands for a number and for its magnitude, and a
magnitude is displayed as the number is, without the sign.

## Main results

* `toNat_toBits_abs`: the bits of a magnitude
* `isFinite_abs`, `abs_abs`: a finite number has a finite magnitude, which is its own magnitude
* `toList_displayText_abs`: the display form of a magnitude
-/

namespace Lox.Number

open Float.Model Float.Model.UnpackedFloat

variable {spec : Format} {x : Float}

/-! ## Bits -/

/-- A magnitude has the exponent and the mantissa of the number. -/
theorem abs_unpack (b : BitVec spec.numBits) :
    (UnpackedFloat.unpack spec b).abs = UnpackedFloat.unpack spec
      (packComponents spec .positive (unpackExponent b) (unpackMantissa b)) := by
  unfold UnpackedFloat.unpack
  simp only [unpackMantissa_packComponents, unpackExponent_packComponents,
    unpackSign_packComponents, Sign.ofBitVec_toBitVec]
  split
  · split <;> rfl
  split
  · split <;> rfl
  · rfl

theorem isNaN_unpack (b : BitVec spec.numBits) :
    (UnpackedFloat.unpack spec b).isNaN = isNaNBits b := by
  unfold UnpackedFloat.unpack isNaNBits
  simp only
  split
  · rename_i he
    split <;> rename_i hm <;> simp [UnpackedFloat.isNaN, he, hm]
  · rename_i he
    split
    · split <;> simp [UnpackedFloat.isNaN, he]
    · simp [UnpackedFloat.isNaN, he]

/-- The sign is the first bit. -/
theorem toNat_packComponents (s : Sign) (e : BitVec 11) (m : BitVec 52) :
    (packComponents Format.binary64 s e m).toNat =
      s.toBitVec.toNat * 2 ^ 63 + (e.toNat * 2 ^ 52 + m.toNat) := by
  have happend {v w : ℕ} (b : BitVec v) (c : BitVec w) :
      (b ++ c).toNat = b.toNat * 2 ^ w + c.toNat := by
    rw [BitVec.toNat_append, ← Nat.shiftLeft_add_eq_or_of_lt c.isLt, Nat.shiftLeft_eq]
  refine (happend (s.toBitVec ++ e) m).trans ?_
  rw [happend]
  ring

theorem toNat_packComponents_positive (b : BitVec Format.binary64.numBits) :
    (packComponents Format.binary64 .positive (unpackExponent b) (unpackMantissa b)).toNat =
      b.toNat % 2 ^ 63 := by
  have hpositive : Sign.positive.toBitVec.toNat = 0 := rfl
  have hlt {e m : ℕ} (he : e < 2 ^ 11) (hm : m < 2 ^ 52) : e * 2 ^ 52 + m < 2 ^ 63 := by omega
  have hb := congrArg BitVec.toNat (packComponents_unpackSign_unpackExponent_unpackMantissa b)
  rw [← hb, toNat_packComponents, toNat_packComponents,
    Nat.mul_add_mod_of_lt (hlt (unpackExponent b).isLt (unpackMantissa b).isLt), hpositive,
    Nat.zero_mul, Nat.zero_add]

theorem isNaN_unpacked_abs (f : UnpackedFloat) : f.abs.isNaN = f.isNaN := by
  cases f <;> rfl

theorem isInf_unpacked_abs (f : UnpackedFloat) : f.abs.isInf = f.isInf := by
  cases f <;> rfl

/-- What is put together after the sign has been dropped is the same as before, but for the sign. -/
theorem toBitVec_toBits_abs (h : x.isNaN = false) :
    x.abs.toBits.toBitVec = packComponents Format.binary64 .positive
      (unpackExponent x.toBits.toBitVec) (unpackMantissa x.toBits.toBitVec) := by
  have hdefined : (UnpackedFloat.unpack Format.binary64 x.toBits.toBitVec).abs.isNaN = false :=
    (isNaN_unpacked_abs _).trans h
  have hpack := pack_unpack (packComponents Format.binary64 .positive
    (unpackExponent x.toBits.toBitVec) (unpackMantissa x.toBits.toBitVec))
  rw [abs_unpack, isNaN_unpack] at hdefined
  rw [if_neg (ne_true_of_eq_false hdefined), ← abs_unpack] at hpack
  exact hpack

/-- The bits of a magnitude are those of the number, but for the first one. -/
theorem toNat_toBits_abs (h : x.isNaN = false) : x.abs.toBits.toNat = x.toBits.toNat % 2 ^ 63 :=
  (congrArg BitVec.toNat (toBitVec_toBits_abs h)).trans (toNat_packComponents_positive _)

theorem unpack_abs (h : x.isNaN = false) : x.abs.toModel.unpack = x.toModel.unpack.abs :=
  (congrArg (UnpackedFloat.unpack Format.binary64) (toBitVec_toBits_abs h)).trans
    (abs_unpack _).symm

/-! ## Finite numbers -/

/-- The magnitude of a finite number is finite. -/
theorem isFinite_abs (h : IsFinite x) : IsFinite x.abs := by
  constructor
  · show x.abs.toModel.unpack.isNaN = false
    rw [unpack_abs h.1, isNaN_unpacked_abs]
    exact h.1
  · show x.abs.toModel.unpack.isInf = false
    rw [unpack_abs h.1, isInf_unpacked_abs]
    exact h.2

theorem abs_abs (h : IsFinite x) : x.abs.abs = x.abs := by
  refine Float.toBits_inj.mp (UInt64.toNat_inj.mp ?_)
  rw [toNat_toBits_abs (isFinite_abs h).1, toNat_toBits_abs h.1, Nat.mod_mod]

theorem isNegative_abs (h : IsFinite x) : isNegative x.abs = false := by
  rw [isNegative, beq_eq_false_iff_ne, ne_eq, ← UInt64.toNat_inj, UInt64.toNat_shiftRight,
    toNat_toBits_abs h.1, Nat.shiftRight_eq_div_pow]
  show ¬x.toBits.toNat % 2 ^ 63 / 2 ^ 63 = 1
  omega

/-- The same decimal stands for a number and for its magnitude. -/
theorem decimal?_abs (h : IsFinite x) : decimal? x.abs = decimal? x := by
  have hbits : Dyadic.ofBits x.abs.toBits = Dyadic.ofBits x.toBits := by
    have he (n : ℕ) : n % 2 ^ 63 / 2 ^ 52 % 2 ^ 11 = n / 2 ^ 52 % 2 ^ 11 := by omega
    have hm (n : ℕ) : n % 2 ^ 63 % 2 ^ 52 = n % 2 ^ 52 := by omega
    rw [Dyadic.ofBits_eq, Dyadic.ofBits_eq, toNat_toBits_abs h.1, he, hm]
  rw [decimal?, decimal?, hbits]

/-- **The display form of a magnitude** is that of the number, without the sign. -/
theorem toList_displayText_abs (h : IsFinite x) :
    (displayText x.abs).toList = displayMagnitude (isPlainRange x) (decimal? x) := by
  have hplain : isPlainRange x.abs = isPlainRange x := by
    rw [isPlainRange, isPlainRange, abs_abs h]
  rw [toList_displayText (isFinite_abs h), sign, isNegative_abs h, hplain, decimal?_abs h]
  rfl

end Lox.Number
