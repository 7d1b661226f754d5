import Montage.Number.Rounding

/-! The exact values behind double-precision numbers. A finite number is a sign and a ratio of two
natural numbers; everything that prints, rounds or narrows a number works on that ratio. -/

namespace Montage.Number

/-- A non-negative rational number. The denominator is never zero. -/
structure Ratio where
  numerator : Nat
  denominator : Nat
  positive : 0 < denominator

/-- `mantissa · 2 ^ exponent` as a ratio. -/
def Ratio.ofScaled (mantissa : Nat) (exponent : Int) : Ratio where
  numerator := mantissa * Nat.pow 2 exponent.toNat
  denominator := Nat.pow 2 (-exponent).toNat
  positive := Nat.two_pow_pos _

/-- What a double stands for: a number with a sign, an infinity, or nothing. -/
inductive Meaning where
  | number (negative : Bool) (mantissa : Nat) (exponent : Int)
  | infinite (negative : Bool)
  | undefined
  deriving DecidableEq, Repr

/-- The meaning of a double. The mantissa and exponent are those of its encoding: the mantissa has
53 bits, or fewer when the exponent is the least one, -1074. Both zeros have mantissa 0. -/
def meaning (x : Float) : Meaning :=
  match x.toModel.unpack with
  | .notANumber => .undefined
  | .infinity sign => .infinite (sign matches .negative)
  | .zero sign => .number (sign matches .negative) 0 (-1074)
  | .finite sign mantissa exponent _ => .number (sign matches .negative) mantissa exponent

/-- The double nearest to a positive ratio, a tie going to the even mantissa; a ratio beyond the
largest double gives infinity. -/
def ofRatio (numerator denominator : Nat) : Float :=
  if above : 0 < numerator then
    if below : 0 < denominator then
      .ofModel (.pack (.div .binary64 (.finite .positive numerator 0 above)
        (.finite .positive denominator 0 below)))
    else 1 / 0
  else 0

/-- A double brought to the range `0 … limit` and rounded to the nearest whole number, a tie going
up. Nothing that is no number counts as more than zero. -/
def roundedWithin (limit : Nat) (x : Float) : Nat :=
  match meaning x with
  | .number false mantissa exponent =>
    let size := Ratio.ofScaled mantissa exponent
    min (roundedQuotient .awayFromZero size.numerator size.denominator) limit
  | .infinite false => limit
  | _ => 0

theorem roundedWithin_le (limit : Nat) (x : Float) : roundedWithin limit x ≤ limit := by
  unfold roundedWithin
  split
  · exact Nat.min_le_right _ _
  · exact Nat.le_refl _
  · exact Nat.zero_le _

end Montage.Number
