import Lox.Number.Dyadic

/-!
# Shortest decimals

The decimal that stands for a double: of the decimals that read back as it those with the fewest
digits, and of these the one nearest to it.

The decimals with a given number of digits form a grid. If one of them lies in the interval of the
value, so does one of the value's two neighbours on the grid, so only those two are tried. Seventeen
digits are always enough.

## Main definitions

* `Dyadic.scale x`: the number of digits before the point of `x`
* `Dyadic.nearest? x i`: the neighbour of `x` on the grid of `10 ^ i` that reads back as `x`
* `Dyadic.shortest x`: the decimal that stands for `x`
-/

namespace Lox.Number

namespace Dyadic

/-- The exact decimal value. -/
def exactDecimal (x : Dyadic) : Decimal :=
  if 0 ≤ x.exponent then ⟨x.significand * twoPower x.exponent, 0⟩
  else ⟨x.significand * Nat.pow 5 (-x.exponent).toNat, x.exponent⟩

/-- The least `k` with `x < 10 ^ k`. It is estimated by the binary logarithm, which the conversion
factor turns into the decimal one up to one unit. -/
def scale (x : Dyadic) : Int :=
  let estimate := ((x.significand.log2 : Int) + x.exponent) * 30103 / 100000
  let below (k : Int) : Bool := compareScaled 1 k x.significand x.exponent == .gt
  ([estimate - 1, estimate, estimate + 1].find? below).getD (estimate + 2)

/-- The neighbour on the grid of `10 ^ i` that reads back as the value: the nearer one if both do,
and the even one if they are equally near. -/
def nearest? (x : Dyadic) (i : Int) : Option Decimal :=
  let n := x.quotient i
  let lower : Decimal := ⟨n, i⟩
  let upper : Decimal := ⟨n + 1, i⟩
  match x.readsBack lower, x.readsBack upper with
  | false, false => none
  | true, false => some lower
  | false, true => some upper
  | true, true =>
    match compareScaled (2 * n + 1) i (2 * x.significand) x.exponent with
    | .gt => some lower
    | .lt => some upper
    | .eq => some (if n % 2 = 0 then lower else upper)

/-- The decimal that stands for a positive value, with no zero at the end of its digits. -/
def shortest (x : Dyadic) : Decimal :=
  let k := x.scale
  let found := (List.range 17).findSome? fun n => x.nearest? (k - (n + 1 : Nat))
  let d := found.getD x.exactDecimal
  d.stripZeros d.digits

end Dyadic

end Lox.Number
