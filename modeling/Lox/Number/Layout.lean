import Lox.Number.Shortest

/-!
# Number texts

The two texts of a number: the literal form, in which token listings show it, and the display form,
in which programs print it. Both have the fewest digits that read back as the number; they differ
in the range that is written positionally, in the point of integral values, in the exponent, and
in the texts of the values that are not finite.

## Main definitions

* `literalText x`: `1.0`, `1e+16`, `nan`
* `displayText x`: `1`, `1e+21`, `NaN`
-/

namespace Lox.Number

/-- The sign bit is set. -/
def isNegative (x : Float) : Bool :=
  x.toBits >>> 63 == 1

/-- The decimal of the magnitude, nothing standing for zero. -/
def decimal? (x : Float) : Option Decimal :=
  let magnitude := Dyadic.ofBits x.toBits
  if magnitude.significand = 0 then none else some magnitude.shortest

/-- The sign that stands before a magnitude. -/
def sign (x : Float) : List Char :=
  if isNegative x then ['-'] else []

/-- The exponent of the leading digit. -/
def Decimal.leading (d : Decimal) : Int :=
  d.point - 1

/-- A number in the literal form has an exponent from `10 ^ 16` on and below `10 ^ -4`. -/
def Decimal.isPositional (d : Decimal) : Bool :=
  -4 ≤ d.leading && d.leading < 16

/-- The exponent after the mantissa, with its sign and at least `width` digits. -/
def exponentText (width : Nat) (e : Int) : List Char :=
  let digits := Nat.toDigits 10 e.natAbs
  'e' :: (if e < 0 then '-' else '+') :: (List.replicate (width - digits.length) '0' ++ digits)

/-- A magnitude in the literal form: an integral value has a fraction of one zero, and an exponent
has at least two digits. -/
def literalMagnitude : Option Decimal → List Char
  | none => ['0', '.', '0']
  | some d =>
    if d.isPositional then
      if 0 ≤ d.exponent then d.positional ++ ['.', '0'] else d.positional
    else d.mantissa ++ exponentText 2 d.leading

/-- The literal form of a number. -/
def literalText (x : Float) : String :=
  if x.isNaN then "nan"
  else if x.isInf then if x < 0.0 then "-inf" else "inf"
  else String.ofList (sign x ++ literalMagnitude (decimal? x))

/-- The range of magnitudes that are displayed positionally, whatever their literal form. -/
def isPlainRange (x : Float) : Bool :=
  1e-6 ≤ x.abs && x.abs < 1e21

/-- A magnitude in the display form; `plain` forces it to be positional. Integral values have no
fraction, and exponents no leading zero. -/
def displayMagnitude (plain : Bool) : Option Decimal → List Char
  | none => ['0']
  | some d =>
    if d.isPositional || plain then d.positional else d.mantissa ++ exponentText 1 d.leading

/-- The display form of a number. -/
def displayText (x : Float) : String :=
  if x.isNaN then "NaN"
  else if x.isInf then if x < 0.0 then "-Infinity" else "Infinity"
  else String.ofList (sign x ++ displayMagnitude (isPlainRange x) (decimal? x))

end Lox.Number
