import Lox.Number.Decimal

/-!
# Dyadic values

The exact value of a positive finite double, and the decimals that read back as it.

A decimal reads back as a double if it lies in the interval of the reals that round to it: from
halfway to the neighbour below to halfway to the neighbour above, with the ends when the
significand is even.

## Main definitions

* `Dyadic`: a significand times a power of two
* `Dyadic.ofBits b`: the magnitude of the double with the bits `b`
* `Dyadic.readsBack x d`: the decimal `d` rounds to `x`
-/

namespace Lox.Number

/-- The magnitude of a finite double: `significand * 2 ^ exponent`. -/
structure Dyadic where
  significand : Nat
  exponent : Int
  /-- The value below is half as far away as the value above. -/
  narrowBelow : Bool
  deriving DecidableEq, Repr

/-- The magnitude of the finite double with these bits. -/
def Dyadic.ofBits (bits : UInt64) : Dyadic :=
  let e := ((bits >>> 52) &&& 0x7FF).toNat
  let f := (bits &&& 0xFFFFFFFFFFFFF).toNat
  if e = 0 then ⟨f, -1074, false⟩
  else ⟨0x10000000000000 + f, (e : Int) - 1075, f == 0 && e > 1⟩

/-- The power of ten, one for a negative exponent. -/
def tenPower (i : Int) : Nat :=
  Nat.pow 10 i.toNat

/-- The power of two, one for a negative exponent. -/
def twoPower (j : Int) : Nat :=
  Nat.pow 2 j.toNat

/-- Compares `a * 10 ^ i` with `n * 2 ^ j`. -/
def compareScaled (a : Nat) (i : Int) (n : Nat) (j : Int) : Ordering :=
  compare (a * tenPower i * twoPower (-j)) (n * twoPower j * tenPower (-i))

/-- Whether the decimal is among the reals that round to the value. -/
def Dyadic.readsBack (x : Dyadic) (d : Decimal) : Bool :=
  let low := if x.narrowBelow then 4 * x.significand - 1 else 4 * x.significand - 2
  let high := 4 * x.significand + 2
  let ends := x.significand % 2 == 0
  let atLow := compareScaled d.digits d.exponent low (x.exponent - 2)
  let atHigh := compareScaled d.digits d.exponent high (x.exponent - 2)
  (atLow == .gt || (ends && atLow == .eq)) && (atHigh == .lt || (ends && atHigh == .eq))

/-- The greatest multiple of `10 ^ i` up to the value, in units of `10 ^ i`. -/
def Dyadic.quotient (x : Dyadic) (i : Int) : Nat :=
  x.significand * twoPower x.exponent * tenPower (-i) / (tenPower i * twoPower (-x.exponent))

end Lox.Number
