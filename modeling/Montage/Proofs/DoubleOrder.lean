import Montage.Proofs.DoubleWords

/-! The order of doubles under arithmetic. Adding and multiplying by what is not negative keep the order, also where a
result is beyond the largest double, and so does cutting off to a whole number. -/

namespace Montage.Proofs.DoubleOrder
open Float.Model Float.Model.UnpackedFloat DoubleValue DoubleRounding DoubleArithmetic DoubleSums DoubleWords

/-- Whether a double is not negative and at most another, which may be infinite. -/
inductive AtMost (x y : Float) : Prop where
  | finite (x_finite : x.isFinite = true) (y_finite : y.isFinite = true) (nonneg : 0 ≤ value x)
      (less : value x ≤ value y)
  | infinite (infinite : y.toModel.unpack = .infinity .positive)

private theorem atMost_packed {x y : Float} {r q : ℚ} (first : Packed .positive x r) (second : Packed .positive y q)
    (nonneg : 0 ≤ r) (less : r ≤ q) : AtMost x y := by
  cases second with
  | infinite infinite _ => exact .infinite infinite
  | finite y_finite y_value below =>
    cases first with
    | infinite _ above => exact absurd above (less.trans_lt below).not_ge
    | finite x_finite x_value _ =>
      have x_value : value x = r := x_value
      have y_value : value y = q := y_value
      exact .finite x_finite y_finite (x_value ▸ nonneg) (by rw [x_value, y_value]; exact less)

private theorem unpack_pack_infinity : (Float.Model.pack (.infinity .positive)).unpack = .infinity .positive := by
  rfl

section Operations
variable {x y factor : Float} (finite : factor.isFinite = true)
include finite

theorem AtMost.mul (ordered : AtMost x y) (positive : 0 < value factor) : AtMost (x * factor) (y * factor) := by
  cases ordered with
  | finite x_finite y_finite nonneg less =>
    obtain ⟨r, first, x_packed⟩ := mul_packed x_finite finite nonneg positive.le
    obtain ⟨q, second, y_packed⟩ := mul_packed y_finite finite (nonneg.trans less) positive.le
    exact atMost_packed x_packed y_packed first.nonneg
      (first.mono second (mul_le_mul_of_nonneg_right less positive.le))
  | infinite infinite =>
    have parts := unsigned finite positive.le
    have product : y * factor = .ofModel (.pack (.mul .binary64 y.toModel.unpack factor.toModel.unpack)) := rfl
    refine .infinite ?_
    rw [product, infinite]
    unfold value at positive
    generalize factor.toModel.unpack = other at *
    cases parts with
    | zero sign => exact absurd positive (lt_irrefl _)
    | @finite m e some_mantissa _ _ =>
      have beyond : UnpackedFloat.mul .binary64 (.infinity .positive) (.finite .positive m e some_mantissa) =
        .infinity .positive := rfl
      rw [beyond]
      exact unpack_pack_infinity

theorem AtMost.add (ordered : AtMost x y) (nonneg : 0 ≤ value factor) : AtMost (x + factor) (y + factor) := by
  cases ordered with
  | finite x_finite y_finite x_nonneg less =>
    obtain ⟨r, first, x_packed⟩ := add_packed x_finite finite x_nonneg nonneg
    obtain ⟨q, second, y_packed⟩ := add_packed y_finite finite (x_nonneg.trans less) nonneg
    exact atMost_packed x_packed y_packed first.nonneg (first.mono second (add_le_add_left less _))
  | infinite infinite =>
    have parts := unsigned finite nonneg
    have sum : y + factor = .ofModel (.pack (.add .binary64 y.toModel.unpack factor.toModel.unpack)) := rfl
    refine .infinite ?_
    have beyond : UnpackedFloat.add .binary64 (.infinity .positive) factor.toModel.unpack = .infinity .positive := by
      generalize factor.toModel.unpack = other at *
      cases parts <;> rfl
    rw [sum, infinite, beyond]
    exact unpack_pack_infinity

end Operations

theorem AtMost.toUInt64 {x y : Float} (ordered : AtMost x y) : x.toUInt64.toNat ≤ y.toUInt64.toNat := by
  cases ordered with
  | finite x_finite y_finite nonneg less =>
    rw [toUInt64_finite x_finite nonneg, toUInt64_finite y_finite (nonneg.trans less)]
    exact min_le_min_right _ (Nat.floor_le_floor less)
  | infinite infinite =>
    have bound := x.toUInt64.toNat_lt
    rw [toUInt64_infinite infinite, greatestWord]
    exact Nat.le_sub_one_of_lt bound

private theorem finite_of_ordered {first second : Float.Model.UnpackedFloat}
    (above : UnpackedFloat.compare (.zero .positive) first = some .lt)
    (below : (first.compare second).any (·.isLE) = true) :
    second = .infinity .positive ∨ first.isFinite = true ∧ second.isFinite = true := by
  cases first with
  | notANumber => cases above
  | zero sign => cases above
  | infinity sign =>
    cases sign with
    | negative => cases above
    | positive =>
      cases second with
      | infinity other =>
        cases other with
        | positive => exact .inl rfl
        | negative => cases below
      | notANumber | zero _ | finite _ _ _ _ => cases below
  | finite sign m e some_mantissa =>
    cases second with
    | notANumber => cases sign <;> cases below
    | infinity other =>
      cases other with
      | positive => exact .inl rfl
      | negative => cases sign <;> cases below
    | zero _ | finite _ _ _ _ => exact .inr ⟨rfl, rfl⟩

/-- What is above zero is at most whatever it is not greater than, infinities included. -/
theorem atMost_of_le {x y : Float} (positive : 0 < x) (ordered : x ≤ y) : AtMost x y := by
  have above : (UnpackedFloat.compare (.zero .positive) x.toModel.unpack == some .lt) = true := lt_compares.mp positive
  have below := le_compares.mp ordered
  obtain infinite | ⟨x_finite, y_finite⟩ := finite_of_ordered (eq_of_beq above) below
  · exact .infinite infinite
  · have size : 0 < value x := (lt_iff rfl x_finite).mp positive
    exact .finite x_finite y_finite size.le ((le_iff x_finite y_finite).mp ordered)

theorem AtMost.positive {x y : Float} (ordered : AtMost x y) (positive : 0 < x) : 0 < y := by
  cases ordered with
  | finite x_finite y_finite _ less =>
    have size : 0 < value x := (lt_iff rfl x_finite).mp positive
    exact (lt_iff rfl y_finite).mpr (size.trans_le less)
  | infinite infinite =>
    have above : (UnpackedFloat.compare (.zero .positive) y.toModel.unpack == some .lt) = true := by
      rw [infinite]
      rfl
    exact lt_compares.mpr above

end Montage.Proofs.DoubleOrder
