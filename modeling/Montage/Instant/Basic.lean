import Montage.Number.Notation

/-! Points in time, and the calendar of the universal time zone. -/

namespace Montage

/-- A point in time: whole seconds since the start of 1970 and nanoseconds after them. A thousand
million nanoseconds or more belong to a leap second. -/
structure Instant where
  seconds : Int
  nanoseconds : Nat := 0
  deriving DecidableEq, Repr

namespace Instant

def ofMilliseconds (milliseconds : Int) : Instant :=
  ⟨milliseconds / 1000, (milliseconds % 1000).toNat * 1000000⟩

structure Day where
  year : Int
  month : Nat
  day : Nat
  deriving DecidableEq, Repr

def isLeapYear (year : Int) : Bool :=
  year % 4 = 0 && (year % 100 ≠ 0 || year % 400 = 0)

def daysInMonth (year : Int) (month : Nat) : Nat :=
  if month = 2 then if isLeapYear year then 29 else 28
  else if month = 4 || month = 6 || month = 9 || month = 11 then 30
  else 31

/-- The number of a day, counted from the first of January 1970. Years are taken to start in March,
so that a leap day is the last of its year. -/
def Day.number (day : Day) : Int :=
  let year := if day.month ≤ 2 then day.year - 1 else day.year
  let era := year / 400
  let yearOfEra := year % 400
  let month : Int := (day.month + 9) % 12
  let dayOfYear := (153 * month + 2) / 5 + day.day - 1
  let dayOfEra := yearOfEra * 365 + yearOfEra / 4 - yearOfEra / 100 + dayOfYear
  era * 146097 + dayOfEra - 719468

def Day.ofNumber (number : Int) : Day :=
  let shifted := number + 719468
  let era := shifted / 146097
  let dayOfEra := shifted % 146097
  let yearOfEra := (dayOfEra - dayOfEra / 1460 + dayOfEra / 36524 - dayOfEra / 146096) / 365
  let dayOfYear := dayOfEra - (365 * yearOfEra + yearOfEra / 4 - yearOfEra / 100)
  let month := (5 * dayOfYear + 2) / 153
  let day := dayOfYear - (153 * month + 2) / 5 + 1
  let calendarMonth := if month < 10 then month + 3 else month - 9
  let year := yearOfEra + era * 400
  ⟨if calendarMonth ≤ 2 then year + 1 else year, calendarMonth.toNat, day.toNat⟩

def day (instant : Instant) : Day :=
  .ofNumber (instant.seconds / 86400)

/-- The hour, minute and second of an instant. The second is 60 in a leap second. -/
def clock (instant : Instant) : Nat × Nat × Nat :=
  let second := (instant.seconds % 86400).toNat
  (second / 3600, second / 60 % 60, second % 60 + instant.nanoseconds / 1000000000)

/-- A year: four digits, or a sign and at least four digits outside of them. -/
def yearText (year : Int) : List Char :=
  if 0 ≤ year ∧ year ≤ 9999 then Number.padded 4 year.toNat
  else (if year < 0 then '-' else '+') :: Number.padded 4 year.natAbs

/-- The fraction of a second: none, or three, six or nine digits after a point. -/
def fractionText (nanoseconds : Nat) : List Char :=
  let rest := nanoseconds % 1000000000
  if rest = 0 then []
  else if rest % 1000000 = 0 then '.' :: Number.padded 3 (rest / 1000000)
  else if rest % 1000 = 0 then '.' :: Number.padded 6 (rest / 1000)
  else '.' :: Number.padded 9 rest

/-- Date and time with hyphens, colons and a `T` between them, and a text for the time zone. -/
def dateTime (instant : Instant) (zone : String) : String :=
  let day := instant.day
  let (hour, minute, second) := instant.clock
  String.ofList
    (yearText day.year ++ '-' :: Number.padded 2 day.month ++ '-' :: Number.padded 2 day.day ++
      'T' :: Number.padded 2 hour ++ ':' :: Number.padded 2 minute ++ ':' :: Number.padded 2 second ++
      fractionText instant.nanoseconds ++ zone.toList)

/-- Date and time without marks, `20240102_030405`, as used in names of files. -/
def stamp (instant : Instant) : String :=
  let day := instant.day
  let (hour, minute, second) := instant.clock
  String.ofList
    (yearText day.year ++ Number.padded 2 day.month ++ Number.padded 2 day.day ++
      '_' :: Number.padded 2 hour ++ Number.padded 2 minute ++ Number.padded 2 second)

/-- The milliseconds within the second, in three digits. -/
def millisecondText (instant : Instant) : String :=
  String.ofList (Number.padded 3 (instant.nanoseconds % 1000000000 / 1000000))

end Instant

end Montage
