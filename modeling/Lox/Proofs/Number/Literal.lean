import Lox.Proofs.Token.Lexeme
import Mathlib

/-!
# Literal numbers

The number that the text of a number stands for is never undefined. It may be infinite: the text may
have so many digits that no double is near.

A float is computed by taking the operands apart, computing with the parts and putting the result
together. What is taken apart is undefined only if something undefined was put together, and no
rounding does that.

## Main definitions

* `isNonzero f`: the number is finite and not zero

## Main results

* `isNaN_unpack_pack`: putting together makes no number undefined
* `isNaN_ofScientific`: a natural number over a power of ten is not undefined
* `isNaN_decimalValue`: no text of a number stands for an undefined number
-/

namespace Lox

open Float.Model Float.Model.UnpackedFloat

/-- The number is finite and not zero. -/
def isNonzero : UnpackedFloat → Bool
  | .finite .. => true
  | _ => false

variable {spec : Format} {s : Sign} {m : ℕ} {e : ℤ}

/-! ## Taking apart -/

theorem isNaN_unpack_packComponents {exponent : BitVec spec.exponentBits}
    {mantissa : BitVec spec.mantissaBitsWithoutImplicit}
    (h : exponent = -1#_ → mantissa = 0#_) :
    (UnpackedFloat.unpack spec (packComponents spec s exponent mantissa)).isNaN = false := by
  unfold UnpackedFloat.unpack
  simp only [unpackMantissa_packComponents, unpackExponent_packComponents]
  split
  · rename_i he
    rw [if_pos (h he)]
    rfl
  · split
    · split <;> rfl
    · rfl

/-- Putting together makes no number undefined. -/
theorem isNaN_unpack_pack {f : UnpackedFloat} (h : f.isNaN = false) :
    (UnpackedFloat.unpack spec (UnpackedFloat.pack spec f)).isNaN = false := by
  fun_cases UnpackedFloat.pack spec f with
  | case1 => cases h
  | case2 s => exact isNaN_unpack_packComponents fun _ => rfl
  | case3 s => exact isNaN_unpack_packComponents fun _ => rfl
  | case4 s m e hm biased hlarge => exact isNaN_unpack_packComponents fun _ => rfl
  | case5 s m e hm bits biased hsmall hnormal =>
    refine isNaN_unpack_packComponents fun he => absurd (congrArg BitVec.toNat he) ?_
    rw [BitVec.toNat_ofNat, Nat.mod_eq_of_lt (by omega), BitVec.neg_one_eq_allOnes,
      BitVec.toNat_allOnes]
    omega
  | case6 s m e hm bits biased hsmall hsub =>
    refine isNaN_unpack_packComponents fun he => absurd (congrArg BitVec.toNat he) ?_
    have hpos : 2 ≤ 2 ^ spec.exponentBits := Nat.le_self_pow (Nat.ne_of_gt spec.he) 2
    rw [BitVec.toNat_ofNat, Nat.zero_mod, BitVec.neg_one_eq_allOnes, BitVec.toNat_allOnes]
    omega

/-! ## Operations -/

theorem isNaN_roundWithAccuracy (accuracy : Accuracy) :
    (roundWithAccuracy spec s m e accuracy).isNaN = false := by
  unfold roundWithAccuracy
  simp only
  split <;> rfl

theorem isNaN_normalize {n : ℤ} : (UnpackedFloat.normalize spec n e s).isNaN = false := by
  unfold UnpackedFloat.normalize
  split
  · exact isNaN_roundWithAccuracy _
  · rfl
  · exact isNaN_roundWithAccuracy _

/-- Something over a finite number that is not zero is defined. -/
theorem isNaN_div {f g : UnpackedFloat} (h : f.isNaN = false) (hg : isNonzero g = true) :
    (UnpackedFloat.div spec f g).isNaN = false := by
  cases g with
  | notANumber | infinity | zero => cases hg
  | finite s' m' e' hm' =>
    cases f with
    | notANumber => cases h
    | infinity s => rfl
    | zero s => rfl
    | finite s m e hm => exact isNaN_roundWithAccuracy _

/-- What a digit string is rounded to is defined, with any exponent. -/
theorem isNaN_ofScientific_unpacked (n : ℕ) (e : ℤ) :
    (UnpackedFloat.ofScientific spec n e).isNaN = false := by
  unfold UnpackedFloat.ofScientific
  split
  · rfl
  split
  · rfl
  split
  · rfl
  split
  · exact isNaN_roundWithAccuracy _
  · exact isNaN_div rfl rfl

/-! ## Decimals -/

theorem isNonzero_powerOfTen {x : Float} (h : x ∈ Float.exactlyRepresentablePowersOfTen) :
    isNonzero x.toModel.unpack = true := by
  have hall : ∀ x ∈ Float.exactlyRepresentablePowersOfTen.toList,
      isNonzero x.toModel.unpack = true := by decide
  exact hall x (Array.mem_toList_iff.mpr h)

/-- A natural number over a power of ten is defined. -/
theorem isNaN_ofScientific (n i : ℕ) : (Float.ofScientific n true i).isNaN = false := by
  unfold Float.ofScientific
  split
  · have hn : (Float.Model.ofUInt64 n.toUInt64).unpack.isNaN = false :=
      isNaN_unpack_pack isNaN_normalize
    exact isNaN_unpack_pack (isNaN_div hn (isNonzero_powerOfTen (Array.getElem_mem _)))
  · exact isNaN_unpack_pack (isNaN_ofScientific_unpacked _ _)

/-- **Literal numbers.** The number that a text stands for is not undefined. -/
theorem isNaN_decimalValue (cs : List Char) : (decimalValue cs).isNaN = false :=
  isNaN_ofScientific _ _

end Lox
