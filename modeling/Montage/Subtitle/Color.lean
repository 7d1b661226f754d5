/-! Colours as six hexadecimal digits, and in the notation of subtitle tracks, which writes blue
first and an opacity before it. -/

namespace Montage.Subtitle

def isHexDigit (c : Char) : Bool :=
  ('0' ≤ c && c ≤ '9') || ('a' ≤ c && c ≤ 'f') || ('A' ≤ c && c ≤ 'F')

/-- Whether a text is a number sign and six hexadecimal digits. -/
def isColor (text : String) : Bool :=
  match text.toList with
  | '#' :: digits => digits.length = 6 && digits.all isHexDigit
  | _ => false

/-- An opaque colour in track notation, its channels reversed and its letters in upper case. -/
def trackColor? (text : String) : Option String :=
  match text.toList with
  | ['#', r, r', g, g', b, b'] =>
    if [r, r', g, g', b, b'].all isHexDigit then
      some (String.ofList ("&H00".toList ++ [b, b', g, g', r, r'].map Char.toUpper))
    else none
  | _ => none

end Montage.Subtitle
