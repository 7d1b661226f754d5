import Montage.Proofs.DoubleSums

/-! Whole numbers as doubles and doubles cut off to whole numbers. A whole number of no more than 53 bits is exact, and a
double is cut off to the whole number below it, or to the greatest word if it is beyond that. -/

namespace Montage.Proofs.DoubleWords
open Float.Model Float.Model.UnpackedFloat DoubleValue DoubleRounding DoubleArithmetic DoubleSums

section Whole
variable {n : Nat}

private theorem ofNat_packed (n : Nat) : ∃ r, Rounds n r ∧ Packed .positive (.ofModel (.ofNat n)) r := by
  obtain rfl | positive := n.eq_zero_or_pos
  · exact ⟨0, by exact_mod_cast rounds_zero, packed_zero .positive⟩
  · obtain ⟨r, rounds, result⟩ := @normalize_rounds n 0 positive .positive
    rw [zpow_zero, mul_one] at rounds
    exact ⟨r, rounds, result.packed⟩

/-- A whole number of no more than 53 bits is canonical at some exponent. -/
theorem whole_canonical (small : n < 2 ^ 53) : ∃ m e, Canonical m e ∧ e ≤ 971 ∧ (n : ℚ) = m * 2 ^ e := by
  obtain rfl | positive := n.eq_zero_or_pos
  · exact ⟨0, -1074, ⟨by norm_num, le_rfl, .inr rfl⟩, by norm_num, by simp⟩
  · have bits : n.log2 < 53 := (Nat.log2_lt positive.ne').mpr small
    have low := Nat.log2_self_le positive.ne'
    have high := @Nat.lt_log2_self n
    refine ⟨n * 2 ^ (52 - n.log2), (n.log2 : Int) - 52, ⟨?_, by omega, .inl ?_⟩, by omega, ?_⟩
    · calc n * 2 ^ (52 - n.log2) < 2 ^ (n.log2 + 1) * 2 ^ (52 - n.log2) :=
            Nat.mul_lt_mul_of_pos_right high (by positivity)
        _ = 2 ^ 53 := by rw [← pow_add]; congr 1; omega
    · calc 2 ^ 52 = 2 ^ n.log2 * 2 ^ (52 - n.log2) := by rw [← pow_add]; congr 1; omega
        _ ≤ n * 2 ^ (52 - n.log2) := Nat.mul_le_mul_right _ low
    · rw [Nat.cast_mul, Nat.cast_pow, Nat.cast_ofNat, mul_assoc, ← zpow_natCast, ← zpow_add₀ two_ne_zero]
      rw [show ((52 - n.log2 : Nat) : Int) + ((n.log2 : Int) - 52) = 0 by omega, zpow_zero, mul_one]

/-- What a canonical value is packed to has that value. -/
theorem packed_exact {v r : ℚ} {x : Float} {m : Nat} {e : Int} (rounds : Rounds v r) (packed : Packed .positive x r)
    (canonical : Canonical m e) (most : e ≤ 971) (same : v = m * 2 ^ e) : x.isFinite = true ∧ value x = v := by
  subst same
  have exact := rounds.exact canonical
  cases packed with
  | finite finite value _ => exact ⟨finite, value.trans exact⟩
  | infinite _ above => exact absurd above (exact ▸ below_overflow canonical most).not_ge

theorem ofNat_exact (small : n < 2 ^ 53) :
    (Float.ofModel (.ofNat n)).isFinite = true ∧ value (.ofModel (.ofNat n)) = n := by
  obtain ⟨r, rounds, packed⟩ := ofNat_packed n
  obtain ⟨m, e, canonical, most, same⟩ := whole_canonical small
  exact packed_exact rounds packed canonical most same

theorem toFloat_exact (word : UInt32) : word.toFloat.isFinite = true ∧ value word.toFloat = word.toNat :=
  ofNat_exact (word.toNat_lt.trans (by norm_num))

section Arithmetic
variable {x y : Float} {a b : Nat} (x_finite : x.isFinite = true) (y_finite : y.isFinite = true)
  (x_value : value x = a) (y_value : value y = b)
include x_finite y_finite x_value y_value

theorem mul_whole (small : a * b < 2 ^ 53) : (x * y).isFinite = true ∧ value (x * y) = (a * b : Nat) := by
  obtain ⟨r, rounds, packed⟩ := mul_packed x_finite y_finite (x_value ▸ a.cast_nonneg) (y_value ▸ b.cast_nonneg)
  obtain ⟨m, e, canonical, most, same⟩ := whole_canonical small
  rw [x_value, y_value, ← Nat.cast_mul] at rounds
  exact packed_exact rounds packed canonical most same

theorem add_whole (small : a + b < 2 ^ 53) : (x + y).isFinite = true ∧ value (x + y) = (a + b : Nat) := by
  obtain ⟨r, rounds, packed⟩ := add_packed x_finite y_finite (x_value ▸ a.cast_nonneg) (y_value ▸ b.cast_nonneg)
  obtain ⟨m, e, canonical, most, same⟩ := whole_canonical small
  rw [x_value, y_value, ← Nat.cast_add] at rounds
  exact packed_exact rounds packed canonical most same

end Arithmetic

theorem word_exact (small : n < 2 ^ 53) : n.toUInt64.toFloat = .ofModel (.ofNat n) := by
  have kept : n.toUInt64.toNat = n := UInt64.toNat_ofNat_of_lt' (small.trans (by decide))
  change Float.ofModel (.ofNat n.toUInt64.toNat) = _
  rw [kept]

/-- A literal of no more than 53 bits is the number that it writes. -/
theorem literal_exact (small : n < 2 ^ 53) : value (OfNat.ofNat n) = n := by
  obtain ⟨finite, exact⟩ := ofNat_exact small
  obtain ⟨one_finite, one⟩ := @ofNat_exact 1 (by norm_num)
  have product := mul_whole finite one_finite exact one (by omega)
  have read : (OfNat.ofNat n : Float) = Float.ofScientific n false 0 := rfl
  rw [read, Float.ofScientific, dif_pos ⟨small, by norm_num⟩]
  simp only [Bool.false_eq_true, if_false, word_exact small]
  exact product.2.trans (by rw [Nat.mul_one])

theorem value_literal [n.AtLeastTwo] (small : n < 2 ^ 53) : value (OfNat.ofNat n) = OfNat.ofNat n :=
  (literal_exact small).trans (Nat.cast_ofNat)

end Whole

section Cutting

def greatestWord : Nat := UInt64.size - 1

theorem roundToInt_floor (m : Nat) (e : Int) : roundToInt .positive m e = ⌊(m * 2 ^ e : ℚ)⌋₊ := by
  obtain large | small := le_or_gt 0 e
  · have none : (0 - (e - (e - 0).toNat)).toNat = 0 := by omega
    have same := shifted_value m large
    rw [zpow_zero, mul_one] at same
    rw [← same, Nat.floor_natCast]
    simp only [roundToInt, decreaseExponent, shiftToExponent, none]
    rfl
  · obtain ⟨count, shift⟩ : ∃ count : Nat, e = -count := ⟨(-e).toNat, by omega⟩
    have stays : (e - 0).toNat = 0 := by omega
    have shifts : (0 - (e - (0 : Nat))).toNat = count := by omega
    have bounds := stands_bounds (stands_shiftRight (stands_exact m) count)
    have scaled : (m * 2 ^ e : ℚ) = m / 2 ^ count := by rw [shift, zpow_neg, zpow_natCast, div_eq_mul_inv]
    simp only [roundToInt, decreaseExponent, shiftToExponent, stays, shifts, Sign.apply, scaled]
    exact congrArg _ ((Nat.floor_eq_iff (by positivity)).mpr bounds).symm

private theorem toNat_ofNatClamp (n : Nat) : (UInt64.ofNatClamp n).toNat = min n greatestWord := by
  unfold UInt64.ofNatClamp greatestWord
  have size : UInt64.size = 2 ^ 64 := rfl
  split
  · rw [UInt64.toNat_ofNatLT]
    omega
  · rw [UInt64.toNat_ofNatLT]
    omega

variable {x : Float}

theorem toInt_floor (finite : x.isFinite = true) (nonneg : 0 ≤ value x) (least greatest : Int) :
    (x.toModel.unpack.toInt least greatest).toNat = ⌊value x⌋₊ := by
  have parts := unsigned finite nonneg
  unfold value
  generalize x.toModel.unpack = unpacked at *
  cases parts with
  | zero sign => simp [toInt, unpackedValue]
  | finite positive _ _ => rw [toInt, roundToInt_floor, Int.toNat_natCast, unpackedValue]

/-- A double that is not negative is cut off to the whole number below it. -/
theorem toUInt64_finite (finite : x.isFinite = true) (nonneg : 0 ≤ value x) :
    x.toUInt64.toNat = min ⌊value x⌋₊ greatestWord := by
  have clamped : x.toUInt64.toNat = min (x.toModel.unpack.toInt 0 (UInt64.size - 1)).toNat greatestWord :=
    toNat_ofNatClamp _
  rw [clamped, toInt_floor finite nonneg]

theorem toUInt64_infinite (infinite : x.toModel.unpack = .infinity .positive) : x.toUInt64.toNat = greatestWord := by
  have clamped : x.toUInt64.toNat = min (x.toModel.unpack.toInt 0 (UInt64.size - 1)).toNat greatestWord :=
    toNat_ofNatClamp _
  rw [clamped, infinite]
  rfl

end Cutting

end Montage.Proofs.DoubleWords
