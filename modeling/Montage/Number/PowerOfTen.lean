import Montage.Number.Binary

/-! Powers of ten with a fractional exponent. The exponent is split into a whole number, for which
the power is exact, and a rest below one, for which the exponential series is summed in fixed-point
arithmetic that is far finer than a double. -/

namespace Montage.Number

/-- Fixed-point numbers here count units of `2 ^ -256`. -/
def fixedOne : Nat := Nat.pow 2 256

/-- The natural logarithm of ten in fixed point. -/
def logTen : Nat :=
  266621138564480548222253459415182587429914225440519472036001743423645469947338

/-- The terms of the exponential series of `z` from the `index`-th on, given the one before it. -/
def seriesFrom (z : Nat) : Nat → Nat → Nat → Nat
  | 0, _, _ => 0
  | terms + 1, index, previous =>
    let term := previous * z / (index * fixedOne)
    term + seriesFrom z terms (index + 1) term

/-- `e ^ z` in fixed point for `z` below three; the ninety-first term is less than one unit. -/
def fixedExp (z : Nat) : Nat :=
  fixedOne + seriesFrom z 90 1 fixedOne

/-- The double nearest to `10 ^ x`: infinity where that is too large and zero where it is too
small. -/
def tenToThe (x : Float) : Float :=
  match meaning x with
  | .undefined => x
  | .infinite negative => if negative then 0 else x
  | .number negative mantissa exponent =>
    let size := Ratio.ofScaled mantissa exponent
    if 400 * size.denominator ≤ size.numerator then if negative then 0 else 1 / 0
    else
      let units : Int := size.numerator * fixedOne / size.denominator
      let signed := if negative then -units else units
      let whole := signed / fixedOne
      let rest := (signed % fixedOne).toNat
      let power := fixedExp (rest * logTen / fixedOne)
      ofRatio (power * Nat.pow 10 whole.toNat) (fixedOne * Nat.pow 10 (-whole).toNat)

end Montage.Number
