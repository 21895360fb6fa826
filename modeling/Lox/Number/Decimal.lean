/-!
# Decimals

Positive decimals, and the two ways to write them: positionally, and with an exponent.

## Main definitions

* `Decimal`: digits times a power of ten
* `Decimal.point d`: the number of digits before the decimal point
* `Decimal.positional d`: the digits with the point at its place
* `Decimal.mantissa d`: the digits with a point after the first one
-/

namespace Lox.Number

/-- The decimal `digits * 10 ^ exponent`. -/
structure Decimal where
  digits : Nat
  exponent : Int
  deriving DecidableEq, Repr

namespace Decimal

/-- The digits from the leading one on. -/
def digitChars (d : Decimal) : List Char :=
  Nat.toDigits 10 d.digits

/-- The place of the decimal point, counted from the left of the leading digit. -/
def point (d : Decimal) : Int :=
  d.digitChars.length + d.exponent

/-- The decimal without an exponent. An integral value has no point. -/
def positional (d : Decimal) : List Char :=
  let digits := d.digitChars
  if 0 ≤ d.exponent then digits ++ List.replicate d.exponent.toNat '0'
  else if d.point ≤ 0 then '0' :: '.' :: (List.replicate (-d.point).toNat '0' ++ digits)
  else digits.take d.point.toNat ++ '.' :: digits.drop d.point.toNat

/-- The digits with a point after the first one; a single digit has no point. -/
def mantissa (d : Decimal) : List Char :=
  match d.digitChars with
  | first :: second :: digits => first :: '.' :: second :: digits
  | digits => digits

/-- Moves the trailing zeros of the digits into the exponent, at most `fuel` of them. -/
def stripZeros : (fuel : Nat) → Decimal → Decimal
  | 0, d => d
  | fuel + 1, d =>
    if d.digits % 10 = 0 then stripZeros fuel ⟨d.digits / 10, d.exponent + 1⟩ else d

end Decimal

end Lox.Number
