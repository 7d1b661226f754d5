/-! Quotients of natural numbers, rounded to the nearest natural number. -/

namespace Montage.Number

/-- Where a quotient goes that lies exactly halfway between two whole numbers. -/
inductive Tie where
  | toEven
  | awayFromZero
  deriving DecidableEq, Repr

/-- The whole number nearest to `numerator / denominator`. -/
def roundedQuotient (tie : Tie) (numerator denominator : Nat) : Nat :=
  let whole := numerator / denominator
  let twice := 2 * (numerator % denominator)
  if twice < denominator then whole
  else if denominator < twice then whole + 1
  else match tie with
    | .toEven => whole + whole % 2
    | .awayFromZero => whole + 1

/-- The rounded quotient is at most half a unit away from the exact one. -/
theorem roundedQuotient_near (tie : Tie) (numerator denominator : Nat) (positive : 0 < denominator) :
    2 * numerator ≤ 2 * (roundedQuotient tie numerator denominator * denominator) + denominator ∧
    2 * (roundedQuotient tie numerator denominator * denominator) ≤ 2 * numerator + denominator := by
  have split := Nat.div_add_mod numerator denominator
  have small := Nat.mod_lt numerator positive
  have even : ∀ n : Nat, n % 2 = 0 ∨ n % 2 = 1 := fun n => by omega
  unfold roundedQuotient
  simp only
  generalize numerator / denominator = whole at *
  generalize numerator % denominator = rest at *
  have exact : numerator = whole * denominator + rest := by rw [Nat.mul_comm]; exact split.symm
  split
  · omega
  · have next : (whole + 1) * denominator = whole * denominator + denominator := by
      rw [Nat.add_mul, Nat.one_mul]
    split
    · omega
    · cases tie
      · rcases even whole with h | h
        · simp only [h, Nat.add_zero]; omega
        · simp only [h]; omega
      · simp only; omega

end Montage.Number
