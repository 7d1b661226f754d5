import Montage.Number.Notation
import Montage.Number.Reading

/-! JSON values, as they are read and as they are written. Reading goes from left to right and may
break off: a value that was read from a broken text keeps all that came before the break, so that a
reader that meets an unsuitable value before the break can say so. -/

namespace Montage

/-- A number as it is written: `-12.50e3` has the whole part 12, the fraction digits `50` and the
exponent 3. -/
structure Numeral where
  negative : Bool
  whole : Nat
  fraction : List Char
  exponent : Option Int
  deriving DecidableEq, Repr

inductive Json where
  | null
  | boolean (value : Bool)
  | number (value : Numeral)
  /-- A string, or `none` for one whose escapes or bytes stand for no text. -/
  | text (value : Option String)
  /-- The items in order. A list that is not closed broke off after them. -/
  | list (items : List Json) (closed : Bool)
  /-- The members in order, repeated keys included. -/
  | object (members : List (Option String × Json)) (closed : Bool)
  /-- An object that breaks off at its first key, where the value stands in place of a string. -/
  | keyless (value : Json)
  /-- The place where a text breaks off in want of a value. -/
  | broken
  deriving Repr

namespace Numeral

/-- Whether the number is written without a fraction and without an exponent. -/
def isInteger (numeral : Numeral) : Bool :=
  numeral.fraction.isEmpty && numeral.exponent.isNone

/-- The nearest double, if the number is not beyond the largest one. -/
def double? (numeral : Numeral) : Option Float :=
  let value := Number.ofDecimal numeral.negative
    (Number.valueOf (Number.digitsOf numeral.whole ++ numeral.fraction))
    (numeral.exponent.getD 0 - numeral.fraction.length)
  if value.isFinite then some value else none

def integer (numeral : Numeral) : Int :=
  if numeral.negative then -numeral.whole else numeral.whole

def ofInt (value : Int) : Numeral :=
  ⟨value < 0, value.natAbs, [], none⟩

/-- The numeral of a finite double: the shortest digits that read back, with a point even for a
whole number. Of two that are equally near the one with an even last digit is taken. Sizes from
`1e-5` up to `1e16` have no exponent. -/
def ofDouble (x : Float) : Option Numeral :=
  match Number.meaning x with
  | .number negative mantissa exponent =>
    let decimal := Number.shortest .toEven mantissa exponent
    let digits := Number.digitsOf decimal.digits
    let point : Int := digits.length + decimal.exponent
    if decimal.digits = 0 then some ⟨negative, 0, ['0'], none⟩
    else if 0 ≤ decimal.exponent ∧ point ≤ 16 then
      some ⟨negative, decimal.digits * Nat.pow 10 decimal.exponent.toNat, ['0'], none⟩
    else if 0 < point ∧ point ≤ 16 then
      some ⟨negative, Number.valueOf (digits.take point.toNat), digits.drop point.toNat, none⟩
    else if -5 < point ∧ point ≤ 0 then
      some ⟨negative, 0, List.replicate (-point).toNat '0' ++ digits, none⟩
    else
      some ⟨negative, Number.valueOf (digits.take 1), digits.drop 1, some (point - 1)⟩
  | _ => none

end Numeral

namespace Json

def ofText (value : String) : Json :=
  .text (some value)

def ofNat (value : Nat) : Json :=
  .number (.ofInt value)

/-- A double as a number; what is no finite number has no numeral and becomes `null`. -/
def ofDouble (value : Float) : Json :=
  match Numeral.ofDouble value with
  | some numeral => .number numeral
  | none => .null

def ofMembers (members : List (String × Json)) : Json :=
  .object (members.map fun (key, value) => (some key, value)) true

/-- A value, or `null` for its absence. -/
def ofOption (write : α → Json) : Option α → Json
  | some value => write value
  | none => .null

def ofList (write : α → Json) (values : List α) : Json :=
  .list (values.map write) true

mutual

/-- Whether the text of a value does not break off. A string that stands for no text counts as
complete: its end was found. -/
def isComplete : Json → Bool
  | .null | .boolean _ | .number _ | .text _ => true
  | .list items closed => closed && areComplete items
  | .object members closed => closed && membersComplete members
  | .keyless _ | .broken => false

def areComplete : List Json → Bool
  | [] => true
  | item :: rest => item.isComplete && areComplete rest

def membersComplete : List (Option String × Json) → Bool
  | [] => true
  | (_, value) :: rest => value.isComplete && membersComplete rest

end

end Json

end Montage
