import Montage.Number.Notation
import Montage.Number.Reading
import Montage.Text.Blank
import Montage.Text.Pieces

/-! Times of subtitles. Cues come with SRT times, `01:02:03,456`, and go into a track with times of
hundredths of a second, `1:02:03.45`. -/

namespace Montage.Subtitle

/-- The whole and the fractional part of the seconds of an SRT time; a comma or a point separates
them, and without one the fraction is zero. -/
def secondParts (text : List Char) : List Char × List Char :=
  match Text.cutOnce (fun c => c = ',' || c = '.') text with
  | some parts => parts
  | none => (text, ['0'])

/-- The seconds that hours, minutes, seconds and the digits of a fraction make up. -/
def secondsOf (hours minutes whole : UInt32) (fraction : List Char) : Float :=
  hours.toFloat * 3600 + minutes.toFloat * 60 + whole.toFloat +
    Number.ofDecimal false (Number.valueOf fraction) (-fraction.length)

/-- A number that fits a word of 32 bits. -/
def readWord (text : List Char) : Option UInt32 :=
  (Number.readNatural (UInt32.size - 1) text).map UInt32.ofNat

/-- The seconds of an SRT time, if the text is one. -/
def parseTime (text : String) : Option Float :=
  match Text.pieces (· = ':') (Text.trim text.toList) with
  | [hours, minutes, seconds] =>
    let (whole, fraction) := secondParts seconds
    match readWord hours, readWord minutes, readWord whole with
    | some hours, some minutes, some whole =>
      if fraction.isEmpty || !fraction.all Number.isDigit then none
      else some (secondsOf hours minutes whole fraction)
    | _, _, _ => none
  | _ => none

/-- The seconds of an SRT time. A text that is none counts as zero, so that one bad cue does not
stop a render. -/
def seconds (text : String) : Float :=
  (parseTime text).getD 0

/-- A number of seconds that is not negative; what is no number counts as zero. -/
def atLeastZero (seconds : Float) : Float :=
  if 0 < seconds then seconds else 0

/-- Whole milliseconds, at most `2 ^ 64 - 1`. What is added before cutting off makes up for binary
error as in `1.239 · 1000 = 1238.999…`. -/
def milliseconds (seconds : Float) : UInt64 :=
  (atLeastZero seconds * 1000 + 1e-6).toUInt64

/-- A time in milliseconds as written in a track. Milliseconds are cut off and not rounded. -/
def trackTimeOf (total : Nat) : List Char :=
  Number.digitsOf (total / 3600000) ++ ':' :: Number.padded 2 (total % 3600000 / 60000) ++
    ':' :: Number.padded 2 (total % 60000 / 1000) ++ '.' :: Number.padded 2 (total % 1000 / 10)

/-- A number of seconds as written in a track. -/
def trackTime (seconds : Float) : String :=
  String.ofList (trackTimeOf (milliseconds seconds).toNat)

end Montage.Subtitle
