import Montage.Proofs.DoubleArithmetic

/-! Sums of doubles that are not negative. A sum is the exact sum, rounded: the mantissas are shifted to the lesser of the
two exponents, where they are added without loss. -/

namespace Montage.Proofs.DoubleSums
open Float.Model Float.Model.UnpackedFloat DoubleValue DoubleRounding DoubleArithmetic

private theorem log2_shiftLeft {m : Nat} (positive : 0 < m) (count : Nat) : (m <<< count).log2 = m.log2 + count := by
  rw [Nat.log2_eq_iff (by rw [Nat.shiftLeft_eq]; positivity), Nat.shiftLeft_eq, pow_add, Nat.add_right_comm, pow_add]
  exact ⟨Nat.mul_le_mul_right _ (Nat.log2_self_le positive.ne'),
    Nat.mul_lt_mul_of_pos_right Nat.lt_log2_self (by positivity)⟩

theorem shifted_value (m : Nat) {e target : Int} (reaches : target ≤ e) :
    ((m <<< (e - target).toNat : Nat) : ℚ) * 2 ^ target = m * 2 ^ e := by
  have split : e = (e - target).toNat + target := by omega
  conv_rhs => rw [split, zpow_add₀ two_ne_zero, zpow_natCast]
  rw [Nat.shiftLeft_eq]
  push_cast
  ring

private theorem round_rounds {m : Nat} {e : Int} (positive : 0 < m) (sign : Sign) :
    ∃ r, Rounds (m * 2 ^ e) r ∧ Result sign (UnpackedFloat.round .binary64 sign m e) r := by
  obtain ⟨target, chosen⟩ : ∃ target, target = Format.binary64.targetExponent (totalExponent m e) := ⟨_, rfl⟩
  obtain ⟨count, shift⟩ : ∃ count, count = (e - target).toNat := ⟨_, rfl⟩
  have reaches : e - count ≤ Format.binary64.targetExponent (totalExponent (m <<< count) (e - count)) := by
    rw [targetExponent_eq] at chosen ⊢
    rw [totalExponent] at chosen ⊢
    rw [log2_shiftLeft positive]
    omega
  have same := @shifted_value m e (e - count) (by omega)
  rw [show (e - (e - count)).toNat = count by omega] at same
  have stands : Stands (.ofMantissaAndAccuracy (m <<< count) .exact) ((m * 2 ^ e : ℚ) / 2 ^ (e - count : Int)) := by
    rw [← same, mul_div_cancel_right₀ _ (by positivity)]
    exact stands_exact _
  have rounded := roundWithAccuracy_rounds stands reaches sign
  simp only [UnpackedFloat.round, decreaseExponent, ← chosen, ← shift]
  exact rounded

theorem normalize_rounds {m : Nat} {e : Int} (positive : 0 < m) (sign : Sign) :
    ∃ r, Rounds (m * 2 ^ e) r ∧ Result .positive (UnpackedFloat.normalize .binary64 m e sign) r := by
  have above : compare (m : Int) 0 = .gt := compare_gt_iff_gt.mpr (by exact_mod_cast positive)
  simp only [UnpackedFloat.normalize, above, Int.toNat_natCast]
  exact round_rounds positive .positive

section Sums
variable {x y : Float} (x_finite : x.isFinite = true) (y_finite : y.isFinite = true)
  (x_nonneg : 0 ≤ value x) (y_nonneg : 0 ≤ value y)
include x_finite y_finite x_nonneg y_nonneg

/-- A sum of doubles that are not negative is the sum of their values, rounded. -/
theorem add_packed : ∃ r, Rounds (value x + value y) r ∧ Packed .positive (x + y) r := by
  have x_parts := unsigned x_finite x_nonneg
  have y_parts := unsigned y_finite y_nonneg
  have sum : x + y = .ofModel (.pack (.add .binary64 x.toModel.unpack y.toModel.unpack)) := rfl
  rw [sum]
  unfold value
  generalize x.toModel.unpack = first at *
  generalize y.toModel.unpack = second at *
  cases x_parts with
  | zero sign =>
    cases y_parts with
    | zero other =>
      refine ⟨0, by simpa [unpackedValue] using rounds_zero, ?_⟩
      cases sign <;> cases other <;> exact packed_zero _
    | @finite n f n_positive canonical _ =>
      refine ⟨n * 2 ^ f, ?_, (Result.finite n_positive canonical).packed⟩
      simpa [unpackedValue] using rounds_canonical canonical
  | @finite m e m_positive m_canonical _ =>
    cases y_parts with
    | zero sign =>
      refine ⟨m * 2 ^ e, ?_, (Result.finite m_positive m_canonical).packed⟩
      simpa [unpackedValue] using rounds_canonical m_canonical
    | @finite n f n_positive _ _ =>
      obtain ⟨target, least⟩ : ∃ target, target = min e f := ⟨_, rfl⟩
      have some_mantissa : 0 < m <<< (e - target).toNat + n <<< (f - target).toNat := by
        simp only [Nat.shiftLeft_eq]
        positivity
      obtain ⟨r, rounds, result⟩ := @normalize_rounds _ target some_mantissa .positive
      refine ⟨r, ?_, ?_⟩
      · rw [Nat.cast_add, add_mul, shifted_value m (by omega), shifted_value n (by omega)] at rounds
        exact rounds
      · simp only [UnpackedFloat.add, decreaseExponent, Sign.apply, ← least]
        exact_mod_cast result.packed

end Sums

end Montage.Proofs.DoubleSums
