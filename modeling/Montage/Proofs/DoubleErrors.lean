import Montage.Proofs.DoubleWords

/-! How far doubles are from what they stand for. The errors of the operands add up, and an operation adds half a unit of
the last place that its result can have. -/

namespace Montage.Proofs.DoubleErrors
open DoubleValue DoubleRounding DoubleArithmetic DoubleSums DoubleWords

/-- A double that is finite and not negative, and that is off a value by no more than an error. -/
structure Near (x : Float) (v error : ℚ) : Prop where
  finite : x.isFinite = true
  nonneg : 0 ≤ value x
  above : v ≤ value x + error
  below : value x ≤ v + error

theorem near_exact {x : Float} (finite : x.isFinite = true) (nonneg : 0 ≤ value x) : Near x (value x) 0 :=
  ⟨finite, nonneg, (add_zero _).ge, (add_zero _).ge⟩

section Places
variable (target : Int) (least : -1074 ≤ target) (most : target < 971)
include least most

/-- What a value is rounded and packed to is half a unit of the value's last place away from it at most. -/
theorem near_packed {v r : ℚ} {x : Float} (rounds : Rounds v r) (packed : Packed .positive x r)
    (bound : v < 2 ^ (53 + target)) : Near x v (2 ^ target / 2) := by
  cases packed with
  | finite finite same _ =>
    have same : value x = r := same
    obtain ⟨low, high⟩ := abs_le.mp (rounds.near least bound)
    exact ⟨finite, same ▸ rounds.nonneg, by linarith, by linarith⟩
  | infinite _ above =>
    have power : Canonical (2 ^ 52) (target + 1) := ⟨by norm_num, by omega, .inl le_rfl⟩
    have below := below_overflow power (by omega)
    have same : ((2 ^ 52 : Nat) : ℚ) * 2 ^ (target + 1) = 2 ^ (53 + target) := by
      rw [show 53 + target = (52 : Nat) + (target + 1) by omega, zpow_add₀ two_ne_zero (52 : Nat), zpow_natCast,
        Nat.cast_pow, Nat.cast_ofNat]
    rw [same] at below
    exact absurd above ((rounds.le_power least bound.le).trans_lt below).not_ge

variable {x y : Float} {v w first second : ℚ}

theorem Near.add (x_near : Near x v first) (y_near : Near y w second)
    (bound : v + w + (first + second) < 2 ^ (53 + target)) :
    Near (x + y) (v + w) (first + second + 2 ^ target / 2) := by
  obtain ⟨x_finite, x_nonneg, x_above, x_below⟩ := x_near
  obtain ⟨y_finite, y_nonneg, y_above, y_below⟩ := y_near
  obtain ⟨r, rounds, packed⟩ := add_packed x_finite y_finite x_nonneg y_nonneg
  have sum := near_packed target least most rounds packed (by linarith)
  exact ⟨sum.finite, sum.nonneg, by linarith [sum.above], by linarith [sum.below]⟩

theorem Near.mul (x_near : Near x v first) (y_finite : y.isFinite = true) (y_nonneg : 0 ≤ value y)
    (bound : (v + first) * value y < 2 ^ (53 + target)) :
    Near (x * y) (v * value y) (first * value y + 2 ^ target / 2) := by
  obtain ⟨x_finite, x_nonneg, x_above, x_below⟩ := x_near
  have above := mul_le_mul_of_nonneg_right x_above y_nonneg
  have below := mul_le_mul_of_nonneg_right x_below y_nonneg
  rw [add_mul] at above
  obtain ⟨r, rounds, packed⟩ := mul_packed x_finite y_finite x_nonneg y_nonneg
  have product := near_packed target least most rounds packed (below.trans_lt bound)
  rw [add_mul] at below
  exact ⟨product.finite, product.nonneg, by linarith [product.above], by linarith [product.below]⟩

theorem near_quotient {m n : Nat} (m_small : m < 2 ^ 53) (n_small : n < 2 ^ 53) (positive : 0 < n)
    (bound : (m : ℚ) / n < 2 ^ (53 + target)) :
    Near (.ofModel (.ofNat m) / .ofModel (.ofNat n)) (m / n) (2 ^ target / 2) := by
  obtain ⟨m_finite, m_value⟩ := ofNat_exact m_small
  obtain ⟨n_finite, n_value⟩ := ofNat_exact n_small
  have n_positive : 0 < value (.ofModel (.ofNat n)) := by
    rw [n_value]
    exact_mod_cast positive
  obtain ⟨r, rounds, packed⟩ := div_unsigned m_finite n_finite n_positive (m_value ▸ Nat.cast_nonneg _)
  rw [m_value, n_value] at rounds
  exact near_packed target least most rounds packed bound

end Places

/-- A double is cut off to a whole number if its error passes neither that number nor the next. -/
theorem Near.cut {x : Float} {v error : ℚ} {n : Nat} (near : Near x v error) (reached : n + error ≤ v)
    (passed : v + error < n + 1) (small : n ≤ greatestWord) : x.toUInt64.toNat = n := by
  have floor : ⌊value x⌋₊ = n := by
    rw [Nat.floor_eq_iff near.nonneg]
    exact ⟨by linarith [near.above], by linarith [near.below]⟩
  rw [toUInt64_finite near.finite near.nonneg, floor, min_eq_left small]

end Montage.Proofs.DoubleErrors
