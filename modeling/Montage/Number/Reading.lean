import Montage.Number.Binary

/-! Reading numbers from text: natural numbers below a bound, and decimals as the nearest double. -/

namespace Montage.Number

def isDigit (c : Char) : Bool :=
  '0' ≤ c && c ≤ '9'

def digitValue (c : Char) : Nat :=
  c.toNat - '0'.toNat

def valueOf (digits : List Char) : Nat :=
  digits.foldl (fun value c => value * 10 + digitValue c) 0

/-- A natural number up to `limit`: one or more digits, which one `+` may precede. -/
def readNatural (limit : Nat) (text : List Char) : Option Nat :=
  let digits := match text with
    | '+' :: rest => rest
    | _ => text
  if digits.isEmpty || !digits.all isDigit then none
  else
    let value := valueOf digits
    if value ≤ limit then some value else none

/-- The double nearest to `± significand · 10 ^ exponent`. -/
def ofDecimal (negative : Bool) (significand : Nat) (exponent : Int) : Float :=
  let size := match exponent with
    | .ofNat power => Float.ofScientific significand false power
    | .negSucc power => Float.ofScientific significand true (power + 1)
  if negative then -size else size

/-- Splits a sign off a text; the flag says whether it was a minus. -/
def splitSign : List Char → Bool × List Char
  | '-' :: rest => (true, rest)
  | '+' :: rest => (false, rest)
  | text => (false, text)

/-- An exponent as it follows a significand: nothing at all, or `e` or `E`, a sign and digits. -/
def readExponent : List Char → Option Int
  | [] => some 0
  | c :: rest =>
    if c = 'e' ∨ c = 'E' then
      let (negative, digits) := splitSign rest
      if digits.isEmpty || !digits.all isDigit then none
      else some (if negative then -(valueOf digits : Int) else valueOf digits)
    else none

/-- Digits with at most one point among them and at least one digit, then perhaps an exponent. -/
def readDecimal (negative : Bool) (text : List Char) : Option Float :=
  let whole := text.takeWhile isDigit
  let (places, rest) := match text.dropWhile isDigit with
    | '.' :: rest => (rest.takeWhile isDigit, rest.dropWhile isDigit)
    | rest => ([], rest)
  if whole.isEmpty && places.isEmpty then none
  else (readExponent rest).map fun exponent =>
    ofDecimal negative (valueOf (whole ++ places)) (exponent - places.length)

/-- A double: a decimal or one of the words `inf`, `infinity` and `nan` in any case, with an
optional sign. -/
def readDouble (text : List Char) : Option Float :=
  let (negative, rest) := splitSign text
  let word := rest.map Char.toLower
  if word = "inf".toList ∨ word = "infinity".toList then some (if negative then -(1 / 0) else 1 / 0)
  else if word = "nan".toList then some (0 / 0)
  else readDecimal negative rest

end Montage.Number
