import Montage.Number.Notation
import Montage.Number.PowerOfTen
import Montage.Request.Basic
import Montage.Subtitle.Timecode

/-! Amounts of filters: gains, boxes in pixels, delays and tempo. -/

namespace Montage.Filter

/-- The linear gain of a level in decibels. -/
def linearGain (decibels : Float) : Float :=
  if decibels == 0 then 1 else Number.tenToThe (decibels / 20)

/-- A gain as written in a filter, with six places. -/
def gainText (gain : Float) : String :=
  String.ofList (Number.fixed 6 gain)

/-- The size of the finished picture and the number of pictures a second. -/
structure Canvas where
  width : UInt32 := 1920
  height : UInt32 := 1080
  frameRate : UInt32 := 30
  deriving DecidableEq

structure Box where
  x : Nat
  y : Nat
  width : Nat
  height : Nat
  deriving DecidableEq, Repr

def Box.isEmpty (box : Box) : Bool :=
  box.width = 0 || box.height = 0

/-- A percentage of a length in whole pixels; what is negative or no number gives none. -/
def percentOf (length : UInt32) (percent : Float) : Nat :=
  (percent * length.toFloat / 100).toUInt32.toNat

/-- A region in pixels, cut off where it leaves the canvas. -/
def Box.ofRegion (region : Region) (canvas : Canvas) : Box :=
  let x := min (percentOf canvas.width region.x) canvas.width.toNat
  let y := min (percentOf canvas.height region.y) canvas.height.toNat
  { x, y
    width := min (percentOf canvas.width region.width) (canvas.width.toNat - x)
    height := min (percentOf canvas.height region.height) (canvas.height.toNat - y) }

/-- A delay in whole milliseconds; half a millisecond counts as one. -/
def delayMilliseconds (seconds : Float) : Nat :=
  Number.roundedWithin (UInt64.size - 1) (Subtitle.atLeastZero seconds * 1000)

/-- The least and the greatest factor that one step of tempo takes. -/
def slowest : Float := 0.5

/-- See `slowest`. -/
def fastest : Float := 2

/-- Splits a rate into factors within the limits of one step, by at most so many steps. -/
def tempoStepsWithin : Nat → Float → Option (List Float)
  | 0, _ => none
  | left + 1, rate =>
    if fastest < rate then (tempoStepsWithin left (rate / 2)).map (fastest :: ·)
    else if rate < slowest then (tempoStepsWithin left (rate * 2)).map (slowest :: ·)
    else if rate == 1 then some []
    else some [rate]

/-- The factors whose product is a rate, the fewest possible; none for a rate of one. For a rate that
is infinite, zero or below zero the search does not end, and there is no result. Every other search
ends within the bound: a positive double is less than `2 ^ 1024` and not less than `2 ^ -1074`. -/
def tempoSteps (rate : Float) : Option (List Float) :=
  tempoStepsWithin 1100 rate

end Montage.Filter
