import Montage.Number.Shortest

/-! The written forms of doubles: plain digits without an exponent, a fixed number of places, and
one digit before the point with a power of ten. -/

namespace Montage.Number

/-- The digits of a natural number, most significant first. -/
def digitsOf (n : Nat) : List Char :=
  Nat.toDigits 10 n

/-- The digits of `n`, with leading zeros up to `width` of them. -/
def padded (width n : Nat) : List Char :=
  let digits := digitsOf n
  List.replicate (width - digits.length) '0' ++ digits

def signOf (negative : Bool) : List Char :=
  if negative then ['-'] else []

/-- Digits with a point before the last `places` of them. Without places there is no point. -/
def withPlaces (places : Nat) (digits : List Char) : List Char :=
  if places = 0 then digits
  else
    let filled := List.replicate (places + 1 - digits.length) '0' ++ digits
    filled.take (filled.length - places) ++ '.' :: filled.drop (filled.length - places)

/-- A decimal in plain digits: no exponent, and no point for a whole number. -/
def Decimal.plain (decimal : Decimal) : List Char :=
  if decimal.digits = 0 then ['0']
  else
    match decimal.exponent with
    | .ofNat zeros => digitsOf decimal.digits ++ List.replicate zeros '0'
    | .negSucc places => withPlaces (places + 1) (digitsOf decimal.digits)

/-- A double in plain digits, the fewest that read back: `7.25`, `5`, `-0`, `NaN`, `inf`. Of two
that are equally near the greater size is taken. -/
def plain (x : Float) : List Char :=
  match meaning x with
  | .undefined => "NaN".toList
  | .infinite negative => signOf negative ++ "inf".toList
  | .number negative mantissa exponent => signOf negative ++ (shortest .awayFromZero mantissa exponent).plain

/-- A double with exactly `places` digits after the point; a tie goes to the even digit. -/
def fixed (places : Nat) (x : Float) : List Char :=
  match meaning x with
  | .undefined => "NaN".toList
  | .infinite negative => signOf negative ++ "inf".toList
  | .number negative mantissa exponent =>
    let size := Ratio.ofScaled mantissa exponent
    let scaled := roundedQuotient .toEven (size.numerator * Nat.pow 10 places) size.denominator
    signOf negative ++ withPlaces places (digitsOf scaled)

/-- The exponent of the leading digit of a positive ratio, searched downwards from `exponent`. -/
def leadingExponent (size : Ratio) : Nat → Int → Int
  | 0, exponent => exponent
  | steps + 1, exponent =>
    if size.denominator * Nat.pow 10 exponent.toNat ≤
        size.numerator * Nat.pow 10 (-exponent).toNat then exponent
    else leadingExponent size steps (exponent - 1)

/-- A double with one digit before the point, `places` after it, and a power of ten. -/
def scientific (places : Nat) (x : Float) : List Char :=
  match meaning x with
  | .undefined => "NaN".toList
  | .infinite negative => signOf negative ++ "inf".toList
  | .number negative 0 _ => signOf negative ++ withPlaces places ['0'] ++ "e0".toList
  | .number negative mantissa exponent =>
    let size := Ratio.ofScaled mantissa exponent
    let leading := leadingExponent size 4 (decimalBound mantissa exponent)
    let shift := (places : Int) - leading
    let rounded := roundedQuotient .toEven (size.numerator * Nat.pow 10 shift.toNat)
      (size.denominator * Nat.pow 10 (-shift).toNat)
    let (digits, power) :=
      if rounded = Nat.pow 10 (places + 1) then (Nat.pow 10 places, leading + 1)
      else (rounded, leading)
    signOf negative ++ withPlaces places (digitsOf digits) ++ 'e' :: signOf (power < 0) ++
      digitsOf power.natAbs

end Montage.Number
