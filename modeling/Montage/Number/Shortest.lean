import Montage.Number.Binary

/-! The shortest decimal that reads back as a given double. The reals that round to a double form
an interval around it; the shortest decimal is the multiple of the largest possible power of ten
that lies in that interval, and the nearer one where two do. Two that are equally near occur, as at
`2 ^ 50 + 1 / 4` between the tenths; which of them is meant is for the notation to say. -/

namespace Montage.Number

/-- `digits · 10 ^ exponent`. -/
structure Decimal where
  digits : Nat
  exponent : Int
  deriving DecidableEq, Repr

/-- The reals that round to a positive double, over one common denominator. The ends belong to it
exactly when the mantissa is even, for a tie goes to the even mantissa. -/
structure Catchment where
  lower : Nat
  centre : Nat
  upper : Nat
  denominator : Nat
  closed : Bool

/-- The catchment of `mantissa · 2 ^ exponent`. Below a power of two the next double is only half
as far away, unless the exponent is already the least one. -/
def Catchment.around (mantissa : Nat) (exponent : Int) : Catchment :=
  let scale := Nat.pow 2 (exponent - 2).toNat
  let narrow := mantissa = Nat.pow 2 52 ∧ -1074 < exponent
  { lower := (4 * mantissa - if narrow then 1 else 2) * scale
    centre := 4 * mantissa * scale
    upper := (4 * mantissa + 2) * scale
    denominator := Nat.pow 2 (2 - exponent).toNat
    closed := mantissa % 2 = 0 }

/-- Whether `numerator / denominator` lies in the catchment. -/
def Catchment.holds (catchment : Catchment) (numerator denominator : Nat) : Bool :=
  let point := numerator * catchment.denominator
  let low := catchment.lower * denominator
  let high := catchment.upper * denominator
  if catchment.closed then decide (low ≤ point ∧ point ≤ high) else decide (low < point ∧ point < high)

/-- The multiple of `10 ^ exponent` in the catchment that is nearest to its centre. If any multiple
lies in the catchment, so does one of the two neighbours of the centre. -/
def Catchment.onGrid (tie : Tie) (catchment : Catchment) (exponent : Int) : Option Nat :=
  let up := Nat.pow 10 exponent.toNat
  let down := Nat.pow 10 (-exponent).toNat
  let scaled := catchment.centre * down
  let unit := catchment.denominator * up
  let below := scaled / unit
  let inside (multiple : Nat) : Bool := 0 < multiple && catchment.holds (multiple * up) down
  match inside below, inside (below + 1) with
  | true, true => some (roundedQuotient tie scaled unit)
  | true, false => some below
  | false, true => some (below + 1)
  | false, false => none

/-- An exponent of ten that is certainly too large for a multiple below the double, yet close:
`0.30103` is slightly more than the decimal logarithm of two. -/
def decimalBound (mantissa : Nat) (exponent : Int) : Int :=
  (mantissa.log2 + 1 + exponent) * 30103 / 100000 + 1

/-- Searches the powers of ten downwards. Seventeen digits tell all doubles apart, so that the
twenty steps offered always suffice. -/
def searchGrid (tie : Tie) (catchment : Catchment) : Nat → Int → Decimal
  | 0, exponent => ⟨0, exponent⟩
  | steps + 1, exponent =>
    match catchment.onGrid tie exponent with
    | some digits => ⟨digits, exponent⟩
    | none => searchGrid tie catchment steps (exponent - 1)

/-- The shortest decimal that rounds to `mantissa · 2 ^ exponent`, and the nearest of those; `tie`
decides between two that are equally near. -/
def shortest (tie : Tie) (mantissa : Nat) (exponent : Int) : Decimal :=
  if mantissa = 0 then ⟨0, 0⟩
  else searchGrid tie (.around mantissa exponent) 20 (decimalBound mantissa exponent)

end Montage.Number
