import Montage.Instant.Basic
import Montage.Json.Decode
import Montage.Text.Blank

/-! Reading a date and time with its offset from universal time: `2024-01-02T03:04:05.5+01:00`.
Blanks may stand before each number and mark, the letter between date and time may be small or a
blank, and years outside of four digits carry a sign. -/

namespace Montage.Instant

/-- Why a text is no date and time. -/
inductive Fault where
  | outOfRange
  /-- The date and time are sound by themselves, yet have no counterpart in universal time. -/
  | impossible
  | invalid
  | tooShort
  | trailing
  deriving DecidableEq, Repr

def Fault.message : Fault → String
  | .outOfRange => "input is out of range"
  | .impossible => "no possible date and time matching input"
  | .invalid => "input contains invalid characters"
  | .tooShort => "premature end of input"
  | .trailing => "trailing input"

/-- A part of a text that was read, and the text after it. -/
abbrev Part (α : Type) := Except Fault (α × List Char)

/-- A number of one to `most` digits. -/
def readDigits (most : Nat) (text : List Char) : Part Nat :=
  let digits := (text.take most).takeWhile Number.isDigit
  if text.isEmpty then .error .tooShort
  else if digits.isEmpty then .error .invalid
  else if Int64.maxValue.toInt < Number.valueOf digits then .error .outOfRange
  else .ok (Number.valueOf digits, text.drop digits.length)

/-- A number of one or two digits within bounds, after blanks. -/
def readField (least most : Nat) (text : List Char) : Part Nat :=
  match readDigits 2 (Text.trimStart text) with
  | .error fault => .error fault
  | .ok (value, rest) =>
    if least ≤ value ∧ value ≤ most then .ok (value, rest) else .error .outOfRange

/-- A year of up to four digits, or of any number of digits after a sign. -/
def readYear (text : List Char) : Part Int :=
  let bounded (negative : Bool) : Part Nat → Part Int
    | .error fault => .error fault
    | .ok (value, rest) =>
      let year : Int := if negative then -value else value
      if Int32.minValue.toInt ≤ year ∧ year ≤ Int32.maxValue.toInt then .ok (year, rest) else .error .outOfRange
  match Text.trimStart text with
  | '-' :: rest => bounded true (readDigits rest.length rest)
  | '+' :: rest => bounded false (readDigits rest.length rest)
  | rest => bounded false (readDigits 4 rest)

def readMark (mark : Char) (text : List Char) : Except Fault (List Char) :=
  match Text.trimStart text with
  | [] => .error .tooShort
  | c :: rest => if c = mark then .ok rest else .error .invalid

def readDate (text : List Char) : Except Fault (Day × List Char) := do
  let (year, text) ← readYear text
  let text ← readMark '-' text
  let (month, text) ← readField 1 12 text
  let text ← readMark '-' text
  let (day, text) ← readField 1 31 text
  .ok (⟨year, month, day⟩, text)

/-- The digits after the point of a second as nanoseconds; those after the ninth do not count. -/
def readFraction (text : List Char) : Part Nat :=
  match text with
  | '.' :: rest =>
    match readDigits 9 rest with
    | .error fault => .error fault
    | .ok (value, after) =>
      .ok (value * Nat.pow 10 (9 - (rest.length - after.length)), after.dropWhile Number.isDigit)
  | _ => .ok (0, text)

/-- Hour, minute, second and nanoseconds, and the blanks after them. -/
def readTime (text : List Char) : Except Fault ((Nat × Nat × Nat × Nat) × List Char) := do
  let (hour, text) ← readField 0 23 text
  let text ← readMark ':' text
  let (minute, text) ← readField 0 59 text
  let text ← readMark ':' text
  let (second, text) ← readField 0 60 text
  let (nanoseconds, text) ← readFraction text
  .ok ((hour, minute, second, nanoseconds), Text.trimStart text)

/-- Two digits of an offset. The length counts in bytes, so that one character beyond ASCII is
already long enough to be wrong. -/
def readPair (text : List Char) : Except Fault (Nat × Nat × List Char) :=
  match text with
  | a :: b :: rest =>
    if Number.isDigit a && Number.isDigit b then
      .ok (Number.digitValue a, Number.digitValue b, rest)
    else .error .invalid
  | [c] => if c.utf8Size = 1 then .error .tooShort else .error .invalid
  | [] => .error .tooShort

/-- The offset from universal time in seconds: `Z`, `UTC`, or hours and minutes after a sign. -/
def readOffset (text : List Char) : Part Int :=
  let signed (negative : Bool) (text : List Char) : Except Fault (Int × List Char) := do
    let (h, h', text) ← readPair text
    let text := text.dropWhile fun c => c = ':' || Text.isBlank c
    let (m, m', text) ← readPair text
    if 6 ≤ m then .error .outOfRange
    else
      let size : Int := (h * 10 + h') * 3600 + (m * 10 + m') * 60
      .ok (if negative then -size else size, text)
  match text with
  | 'Z' :: rest | 'z' :: rest => .ok (0, rest)
  | '+' :: rest => signed false rest
  | '-' :: rest | '\u2212' :: rest => signed true rest
  | u :: t :: c :: rest =>
    if [u, t, c].map Char.toUpper = ['U', 'T', 'C'] then .ok (0, rest) else .error .invalid
  | [] => .error .tooShort
  | _ => .error .invalid

/-- The first and the last year that have a calendar. -/
def isYear (year : Int) : Bool :=
  -262143 ≤ year && year ≤ 262142

def parse (text : String) : Except Fault Instant := do
  let (day, text) ← readDate text.toList
  let text ← match text with
    | c :: rest => if c = 'T' ∨ c = 't' ∨ c = ' ' then .ok rest else .error .invalid
    | [] => .error .tooShort
  let ((hour, minute, second, nanoseconds), text) ← readTime text
  let (offset, text) ← readOffset text
  if !(Text.trimStart text).isEmpty then .error .trailing
  else if !isYear day.year || daysInMonth day.year day.month < day.day then .error .outOfRange
  else if 86400 ≤ offset.natAbs then .error .outOfRange
  else
    let leap := second = 60
    let seconds := day.number * 86400 + hour * 3600 + minute * 60 + (if leap then 59 else second) - offset
    let instant : Instant := ⟨seconds, nanoseconds + if leap then 1000000000 else 0⟩
    if isYear instant.day.year then .ok instant else .error .impossible

def read : Json.Reader Instant
  | .text (some value) =>
    match parse value with
    | .ok instant => .ok instant
    | .error fault => .error (.mismatch [] (.refused fault.message))
  | json => .error (Json.unexpected json "an RFC 3339 formatted date and time string")

def toJson (instant : Instant) : Json :=
  .ofText (instant.dateTime "Z")

end Montage.Instant
