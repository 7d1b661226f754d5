/-! Identifiers that are not given out again: universally unique identifiers of version 4, whose
free digits count what was given out before. They come again only after all of them were used. -/

namespace Montage

/-- The last hexadecimal digits of a number, as many as asked for. -/
def hexDigits : Nat → Nat → List Char
  | 0, _ => []
  | width + 1, number => hexDigits width (number / 16) ++ [Nat.digitChar (number % 16)]

/-- The identifier with a number: five groups of digits, the third of which starts with the version
and the fourth with the variant. -/
def identifierText (number : Nat) : String :=
  let digits := hexDigits 30 number
  String.ofList
    (digits.take 8 ++ '-' :: (digits.drop 8).take 4 ++ '-' :: '4' :: (digits.drop 12).take 3 ++
      '-' :: '8' :: (digits.drop 15).take 3 ++ '-' :: digits.drop 18)

end Montage
