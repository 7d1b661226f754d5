import Montage.Number.PowerOfTen
import Montage.Proofs.DoubleRounding

/-! Products and quotients of doubles. Both are the exact results, rounded. -/

namespace Montage.Proofs.DoubleArithmetic
open Number Float.Model Float.Model.UnpackedFloat DoubleValue DoubleRounding

private theorem stands_fraction (whole : Nat) {rest denominator : Nat} (less : rest < denominator) :
    Stands (.ofMantissaAndAccuracy whole (accuracyOfFraction rest denominator)) (whole + (rest : ℚ) / denominator) := by
  have unit : (0 : ℚ) < denominator := by exact_mod_cast Nat.zero_lt_of_lt less
  unfold accuracyOfFraction
  split
  next none =>
    rw [none]
    simpa using stands_exact whole
  next some_rest =>
    have least : (0 : ℚ) < rest / denominator := by
      have : (0 : ℚ) < rest := by exact_mod_cast Nat.pos_of_ne_zero some_rest
      positivity
    obtain below | same | above := lt_trichotomy (2 * rest) denominator
    · have half : (rest : ℚ) / denominator < 1 / 2 := by
        rw [div_lt_div_iff₀ unit two_pos]
        exact_mod_cast (by omega : rest * 2 < 1 * denominator)
      rw [Nat.compare_eq_lt.mpr below]
      exact stands_below whole least half
    · have half : (rest : ℚ) / denominator = 1 / 2 := by
        rw [div_eq_div_iff unit.ne' two_ne_zero]
        exact_mod_cast (by omega : rest * 2 = 1 * denominator)
      rw [Nat.compare_eq_eq.mpr same, half]
      exact stands_half whole
    · have half : 1 / 2 < (rest : ℚ) / denominator := by
        rw [div_lt_div_iff₀ two_pos unit]
        exact_mod_cast (by omega : 1 * denominator < rest * 2)
      have most : (rest : ℚ) / denominator < 1 := by
        rw [div_lt_one unit]
        exact_mod_cast less
      rw [Nat.compare_eq_gt.mpr above]
      exact stands_above whole half most

private theorem stands_quotient (numerator : Nat) {denominator : Nat} (positive : 0 < denominator) :
    Stands (.ofMantissaAndAccuracy (numerator / denominator)
      (accuracyOfFraction (numerator % denominator) denominator)) ((numerator : ℚ) / denominator) := by
  have unit : (0 : ℚ) < denominator := by exact_mod_cast positive
  have parts : (numerator : ℚ) / denominator =
      (numerator / denominator : Nat) + ((numerator % denominator : Nat) : ℚ) / denominator := by
    have split : (numerator : ℚ) = denominator * (numerator / denominator : Nat) + (numerator % denominator : Nat) := by
      exact_mod_cast (Nat.div_add_mod numerator denominator).symm
    field_simp
    linarith
  rw [parts]
  exact stands_fraction _ (Nat.mod_lt _ positive)

section Operations
variable {first second : Sign} {m n : Nat} {e f : Int} (m_positive : 0 < m) (n_positive : 0 < n)

include m_positive n_positive in
private theorem quotient_reaches {target : Int} {count : Nat} (shift : count = (e - f - target).toNat)
    (chosen : target = min (e - f) (Format.binary64.targetExponent (totalExponent m e - totalExponent n f))) :
    target ≤ Format.binary64.targetExponent (totalExponent ((m <<< count) / n) target) := by
  rw [targetExponent_eq] at chosen ⊢
  simp only [totalExponent] at chosen ⊢
  obtain deep | large := le_or_gt target (-1074)
  · exact deep.trans (le_max_right _ _)
  · have bits : n.log2 + 53 ≤ m.log2 + count := by omega
    have full : 2 ^ 52 ≤ (m <<< count) / n := by
      rw [Nat.le_div_iff_mul_le n_positive, Nat.shiftLeft_eq]
      calc 2 ^ 52 * n ≤ 2 ^ 52 * 2 ^ (n.log2 + 1) := Nat.mul_le_mul_left _ Nat.lt_log2_self.le
        _ = 2 ^ (n.log2 + 53) := by rw [← pow_add]; congr 1; omega
        _ ≤ 2 ^ (m.log2 + count) := Nat.pow_le_pow_right two_pos bits
        _ = 2 ^ m.log2 * 2 ^ count := pow_add _ _ _
        _ ≤ m * 2 ^ count := Nat.mul_le_mul_right _ (Nat.log2_self_le m_positive.ne')
    have wide : 52 ≤ ((m <<< count) / n).log2 := (Nat.le_log2 (by omega)).mpr full
    omega

private theorem div_rounds : ∃ r, Rounds (m * 2 ^ e / (n * 2 ^ f)) r ∧ Result (first / second)
    (UnpackedFloat.div .binary64 (.finite first m e m_positive) (.finite second n f n_positive)) r := by
  obtain ⟨target, chosen⟩ : ∃ target, target =
    min (e - f) (Format.binary64.targetExponent (totalExponent m e - totalExponent n f)) := ⟨_, rfl⟩
  obtain ⟨count, shift⟩ : ∃ count, count = (e - f - target).toNat := ⟨_, rfl⟩
  have distance : e = f + target + count := by omega
  have stands : Stands (.ofMantissaAndAccuracy ((m <<< count) / n) (accuracyOfFraction ((m <<< count) % n) n))
      ((m * 2 ^ e / (n * 2 ^ f) : ℚ) / 2 ^ target) := by
    have value : (m * 2 ^ e / (n * 2 ^ f) : ℚ) / 2 ^ target = (m <<< count : Nat) / n := by
      rw [distance, zpow_add₀ two_ne_zero, zpow_add₀ two_ne_zero, zpow_natCast, Nat.shiftLeft_eq]
      push_cast
      field_simp
    rw [value]
    exact stands_quotient _ n_positive
  have rounded := roundWithAccuracy_rounds stands (quotient_reaches m_positive n_positive shift chosen) (first / second)
  simp only [UnpackedFloat.div, divCore, ← chosen, ← shift]
  exact rounded

theorem mul_rounds (reaches : e + f ≤ Format.binary64.targetExponent (totalExponent (m * n) (e + f))) :
    ∃ r, Rounds (m * 2 ^ e * (n * 2 ^ f)) r ∧ Result (first * second)
      (UnpackedFloat.mul .binary64 (.finite first m e m_positive) (.finite second n f n_positive)) r := by
  have stands : Stands (.ofMantissaAndAccuracy (m * n) .exact) ((m * 2 ^ e * (n * 2 ^ f) : ℚ) / 2 ^ (e + f)) := by
    have value : (m * 2 ^ e * (n * 2 ^ f) : ℚ) / 2 ^ (e + f) = (m * n : Nat) := by
      rw [zpow_add₀ two_ne_zero]
      push_cast
      field_simp
    rw [value]
    exact stands_exact (m * n)
  exact roundWithAccuracy_rounds stands reaches (first * second)

end Operations

theorem size_canonical {x : Float} (finite : x.isFinite = true) : ∃ mantissa exponent, Canonical mantissa exponent ∧
    exponent ≤ 971 ∧ |value x| = mantissa * 2 ^ exponent := by
  have parts := unpacked x
  change x.toModel.unpack.isFinite = true at finite
  unfold value
  generalize x.toModel.unpack = unpacked at parts finite
  cases parts with
  | infinity sign => cases finite
  | notANumber => cases finite
  | zero sign => exact ⟨0, -1074, ⟨by norm_num, le_rfl, .inr rfl⟩, by norm_num, by simp [unpackedValue]⟩
  | @finite sign mantissa exponent positive canonical most =>
    refine ⟨mantissa, exponent, canonical, most, ?_⟩
    have size : (0 : ℚ) ≤ mantissa * 2 ^ exponent := by positivity
    cases sign
    · rw [unpackedValue, abs_neg, abs_of_nonneg size]
    · rw [unpackedValue, abs_of_nonneg size]

private theorem positive_of_value {sign : Sign} {mantissa : Nat} {exponent : Int} {some_mantissa : 0 < mantissa}
    (positive : 0 < unpackedValue (.finite sign mantissa exponent some_mantissa)) : sign = .positive := by
  cases sign with
  | positive => rfl
  | negative =>
    have size : (0 : ℚ) < mantissa * 2 ^ exponent := by positivity
    exact absurd positive (neg_neg_of_pos size).not_gt

theorem rounds_zero : Rounds 0 0 := by
  have target : Target 0 (-1074) := ⟨le_rfl, by positivity, .inr rfl⟩
  have nearest : Nearest 0 ((0 : ℚ) / 2 ^ (-1074 : Int)) := by
    rw [zero_div]
    exact ⟨by norm_num, by norm_num, fun odd => absurd odd (by norm_num)⟩
  have rounds := Rounds.mk target nearest
  rwa [Nat.cast_zero, zero_mul] at rounds

section Division
variable {x y : Float} (x_finite : x.isFinite = true) (y_finite : y.isFinite = true) (y_positive : 0 < value y)
include x_finite y_finite y_positive

private theorem div_packed : ∃ sign r, signed sign |value x| = value x ∧ Rounds (|value x| / value y) r ∧
    Packed sign (x / y) r := by
  have x_parts := unpacked x
  have y_parts := unpacked y
  change x.toModel.unpack.isFinite = true at x_finite
  change y.toModel.unpack.isFinite = true at y_finite
  have quotient : x / y = .ofModel (.pack (.div .binary64 x.toModel.unpack y.toModel.unpack)) := rfl
  rw [quotient]
  unfold value at y_positive ⊢
  generalize x.toModel.unpack = dividend at *
  generalize y.toModel.unpack = divisor at *
  cases y_parts with
  | infinity sign => cases y_finite
  | notANumber => cases y_finite
  | zero sign => exact absurd y_positive (lt_irrefl _)
  | @finite second n f n_positive _ _ =>
    obtain rfl := positive_of_value y_positive
    cases x_parts with
    | infinity sign => cases x_finite
    | notANumber => cases x_finite
    | zero sign =>
      refine ⟨sign, 0, ?_, ?_, ?_⟩
      · cases sign <;> simp [signed, unpackedValue]
      · simpa [unpackedValue] using rounds_zero
      · have zero := (@Result.zero sign).packed
        cases sign <;> exact zero
    | @finite first m e m_positive _ _ =>
      have size : (0 : ℚ) ≤ m * 2 ^ e := by positivity
      obtain ⟨r, rounds, result⟩ := @div_rounds first .positive m n e f m_positive n_positive
      have sign : first / .positive = first := by cases first <;> rfl
      rw [sign] at result
      refine ⟨first, r, ?_, ?_, result.packed⟩
      · cases first <;> simp [signed, unpackedValue, abs_of_nonneg size]
      · cases first <;> simpa [unpackedValue, abs_of_nonneg size] using rounds

/-- A quotient that is not negative has no sign, also if it is zero. -/
theorem div_unsigned (x_nonneg : 0 ≤ value x) : ∃ r, Rounds (value x / value y) r ∧ Packed .positive (x / y) r := by
  obtain ⟨sign, r, same, rounds, packed⟩ := div_packed x_finite y_finite y_positive
  rw [abs_of_nonneg x_nonneg] at same rounds
  refine ⟨r, rounds, ?_⟩
  cases sign with
  | positive => exact packed
  | negative =>
    have zero : value x = 0 := by
      change -value x = value x at same
      linarith
    have least : Canonical 0 (-1074) := ⟨by norm_num, le_rfl, .inr rfl⟩
    rw [zero, zero_div] at rounds
    have none : r = 0 := by
      have above := rounds.le least (by simp)
      have below := rounds.ge least (by simp)
      rw [Nat.cast_zero, zero_mul] at above below
      exact above.antisymm below
    subst none
    cases packed with
    | finite finite quotient below => exact .finite finite (quotient.trans neg_zero) below
    | infinite _ above =>
      have some_size : 0 < overflow := by
        unfold overflow
        positivity
      exact absurd above some_size.not_ge

variable (y_large : 1 ≤ value y)
include y_large

/-- A quotient by one or more is finite, and dividing and rounding do not pass a canonical value. -/
theorem div_bounded : (x / y).isFinite = true ∧ ∀ mantissa exponent, Canonical mantissa exponent →
    (value x / value y ≤ mantissa * 2 ^ exponent → value (x / y) ≤ mantissa * 2 ^ exponent) ∧
    (mantissa * 2 ^ exponent ≤ value x / value y → mantissa * 2 ^ exponent ≤ value (x / y)) := by
  obtain ⟨sign, r, sign_eq, rounds, packed⟩ := div_packed x_finite y_finite y_positive
  obtain ⟨m, e, canonical, most, size⟩ := size_canonical x_finite
  have shrinks : |value x| / value y ≤ m * 2 ^ e := size ▸ div_le_self (abs_nonneg _) y_large
  have below : r < overflow := (rounds.le canonical shrinks).trans_lt (below_overflow canonical most)
  cases packed with
  | infinite _ above => exact absurd above below.not_ge
  | finite finite quotient _ =>
    refine ⟨finite, fun mantissa exponent bound => ?_⟩
    rw [quotient]
    cases sign with
    | positive =>
      have same : |value x| = value x := sign_eq
      rw [same] at rounds
      exact ⟨rounds.le bound, rounds.ge bound⟩
    | negative =>
      have same : -|value x| = value x := sign_eq
      have scaled : (0 : ℚ) ≤ mantissa * 2 ^ exponent := by positivity
      refine ⟨fun _ => by change -r ≤ _; linarith [rounds.nonneg], fun least => ?_⟩
      have turned : value x / value y = -(|value x| / value y) := by rw [← neg_div, same]
      have size_nonneg : 0 ≤ |value x| / value y := div_nonneg (abs_nonneg _) y_positive.le
      have none : |value x| / value y ≤ mantissa * 2 ^ exponent := by linarith
      have most := rounds.le bound none
      change _ ≤ -r
      linarith

end Division

/-- What is not less than zero is unpacked to a zero or to a size without a minus. -/
inductive Unsigned : Float.Model.UnpackedFloat → Prop where
  | zero (sign : Sign) : Unsigned (.zero sign)
  | finite {mantissa : Nat} {exponent : Int} (positive : 0 < mantissa) (canonical : Canonical mantissa exponent)
      (most : exponent ≤ 971) : Unsigned (.finite .positive mantissa exponent positive)

theorem unsigned {x : Float} (finite : x.isFinite = true) (nonneg : 0 ≤ value x) : Unsigned x.toModel.unpack := by
  have parts := unpacked x
  change x.toModel.unpack.isFinite = true at finite
  unfold value at nonneg
  generalize x.toModel.unpack = unpacked at *
  cases parts with
  | infinity sign => cases finite
  | notANumber => cases finite
  | zero sign => exact .zero sign
  | @finite sign mantissa exponent positive canonical most =>
    cases sign with
    | positive => exact .finite positive canonical most
    | negative =>
      have size : (0 : ℚ) < mantissa * 2 ^ exponent := by positivity
      exact absurd nonneg (neg_neg_of_pos size).not_ge

theorem packed_zero (sign : Sign) : Packed .positive (.ofModel (.pack (.zero sign))) 0 := by
  cases (@Result.zero sign).packed with
  | finite finite value below => exact .finite finite (value.trans (by cases sign <;> simp [signed])) below
  | infinite _ above => exact absurd above (by unfold overflow; norm_num)

theorem product_reaches {m n : Nat} {e f : Int} (m_positive : 0 < m) (n_positive : 0 < n) (one : Canonical m e)
    (two : Canonical n f) : e + f ≤ Format.binary64.targetExponent (totalExponent (m * n) (e + f)) := by
  rw [targetExponent_eq, totalExponent]
  by_cases wide : 2 ^ 52 ≤ m * n
  · have bits : 52 ≤ (m * n).log2 := (Nat.le_log2 (Nat.mul_pos m_positive n_positive).ne').mpr wide
    omega
  · obtain rfl := one.full.resolve_left fun full => wide (full.trans (Nat.le_mul_of_pos_right m n_positive))
    have := two.full.resolve_left fun full => wide (full.trans (Nat.le_mul_of_pos_left n m_positive))
    omega

section Products
variable {x y : Float} (x_finite : x.isFinite = true) (y_finite : y.isFinite = true)
  (x_nonneg : 0 ≤ value x) (y_nonneg : 0 ≤ value y)
include x_finite y_finite x_nonneg y_nonneg

theorem mul_packed : ∃ r, Rounds (value x * value y) r ∧ Packed .positive (x * y) r := by
  have x_parts := unsigned x_finite x_nonneg
  have y_parts := unsigned y_finite y_nonneg
  have product : x * y = .ofModel (.pack (.mul .binary64 x.toModel.unpack y.toModel.unpack)) := rfl
  rw [product]
  unfold value
  generalize x.toModel.unpack = first at *
  generalize y.toModel.unpack = second at *
  cases x_parts with
  | zero sign =>
    refine ⟨0, by simpa [unpackedValue] using rounds_zero, ?_⟩
    cases y_parts <;> exact packed_zero _
  | @finite m e m_positive m_canonical _ =>
    cases y_parts with
    | zero sign => exact ⟨0, by simpa [unpackedValue] using rounds_zero, packed_zero _⟩
    | @finite n f n_positive n_canonical _ =>
      obtain ⟨r, rounds, result⟩ := @mul_rounds .positive .positive m n e f m_positive n_positive
        (product_reaches m_positive n_positive m_canonical n_canonical)
      exact ⟨r, rounds, result.packed⟩

end Products

theorem value_two : value 2 = 2 := by
  have encoded : value 2 = (2 ^ 52 : Nat) * 2 ^ (-51 : Int) := rfl
  rw [encoded]
  norm_num

section Exactness
variable {x : Float} (finite : x.isFinite = true)
include finite

/-- Half of a double above two is exact, for its exponent can be less. -/
theorem half_exact (large : 2 < value x) : (x / 2).isFinite = true ∧ value (x / 2) = value x / 2 := by
  obtain ⟨half_finite, bounds⟩ := @div_bounded x 2 finite rfl (by rw [value_two]; norm_num)
    (by rw [value_two]; norm_num)
  obtain ⟨m, e, canonical, -, size⟩ := size_canonical finite
  rw [abs_of_pos (by linarith)] at size
  have above : -1074 < e := by
    by_contra least
    have tiny : (m : ℚ) * 2 ^ e < 2 ^ (52 + (-51 : Int)) := scaled_below canonical (by omega)
    rw [size] at large
    norm_num at tiny
    linarith
  have lower : Canonical m (e - 1) := ⟨canonical.small, by omega, .inl (canonical.full.resolve_right (by omega))⟩
  have half : value x / 2 = m * 2 ^ (e - 1) := by
    rw [size, zpow_sub_one₀ two_ne_zero]
    ring
  rw [value_two] at bounds
  obtain ⟨le, ge⟩ := bounds m (e - 1) lower
  exact ⟨half_finite, half ▸ le_antisymm (le half.le) (ge half.ge)⟩

theorem double_exact (positive : 0 < value x) (small : value x < 1 / 2) :
    (x * 2).isFinite = true ∧ value (x * 2) = value x * 2 := by
  obtain ⟨r, rounds, packed⟩ := mul_packed finite rfl positive.le (by rw [value_two]; norm_num : 0 ≤ value 2)
  rw [value_two] at rounds
  obtain ⟨m, e, canonical, -, size⟩ := size_canonical finite
  rw [abs_of_pos positive] at size
  obtain ⟨n, f, twice, double⟩ : ∃ n f, Canonical n f ∧ value x * 2 = n * 2 ^ f := by
    by_cases full : 2 ^ 52 ≤ m
    · refine ⟨m, e + 1, ⟨canonical.small, by have := canonical.least; omega, .inl full⟩, ?_⟩
      rw [size, zpow_add_one₀ two_ne_zero]
      ring
    · obtain rfl := canonical.full.resolve_left full
      refine ⟨2 * m, -1074, ⟨by omega, le_rfl, .inr rfl⟩, ?_⟩
      rw [size, mul_comm, Nat.cast_mul, Nat.cast_ofNat, mul_assoc]
  have exact : r = value x * 2 := double ▸ le_antisymm (rounds.le twice double.le) (rounds.ge twice double.ge)
  have one : Canonical (2 ^ 52) (-52) := ⟨by norm_num, by norm_num, .inl le_rfl⟩
  cases packed with
  | infinite _ above =>
    have below := below_overflow one (by norm_num)
    norm_num at below
    linarith
  | finite finite product _ => exact ⟨finite, product.trans exact⟩

end Exactness

theorem ofRatio_packed {numerator denominator : Nat} (above : 0 < numerator) (below : 0 < denominator) :
    ∃ r, Rounds ((numerator : ℚ) / denominator) r ∧ Packed .positive (ofRatio numerator denominator) r := by
  obtain ⟨r, rounds, result⟩ := @div_rounds .positive .positive numerator denominator 0 0 above below
  rw [zpow_zero, mul_one, mul_one] at rounds
  refine ⟨r, rounds, ?_⟩
  rw [ofRatio, dif_pos above, dif_pos below]
  exact result.packed

end Montage.Proofs.DoubleArithmetic
