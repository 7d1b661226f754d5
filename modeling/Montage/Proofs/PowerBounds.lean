import Montage.Proofs.DoubleArithmetic

/-! Where powers of ten are finite. The fixed-point sum of the exponential series grows with its argument, so that
its value at the logarithm of ten bounds it, and the size of a power is known up to a factor of ten from the whole
part of the exponent. -/

namespace Montage.Proofs.PowerBounds
open Number Float.Model DoubleValue DoubleRounding DoubleArithmetic

private theorem seriesFrom_mono {z w : Nat} (less : z ≤ w) (terms index : Nat) {previous other : Nat}
    (first : previous ≤ other) : seriesFrom z terms index previous ≤ seriesFrom w terms index other := by
  induction terms generalizing index previous other with
  | zero => exact Nat.le_refl _
  | succ terms ih =>
    have term : previous * z / (index * fixedOne) ≤ other * w / (index * fixedOne) :=
      Nat.div_le_div_right (Nat.mul_le_mul first less)
    simp only [seriesFrom]
    exact Nat.add_le_add term (ih (index + 1) term)

private theorem fixedExp_mono {z w : Nat} (less : z ≤ w) : fixedExp z ≤ fixedExp w :=
  Nat.add_le_add_left (seriesFrom_mono less 90 1 (Nat.le_refl _)) _

private theorem one_le_fixedExp (z : Nat) : fixedOne ≤ fixedExp z :=
  Nat.le_add_right _ _

private theorem fixedExp_zero : fixedExp 0 = fixedOne := by
  rfl

theorem fixedExp_logTen : fixedExp logTen ≤ 10 * fixedOne := by
  decide +kernel

theorem ofScaled_value (mantissa : Nat) (exponent : Int) :
    ((Ratio.ofScaled mantissa exponent).numerator : ℚ) / (Ratio.ofScaled mantissa exponent).denominator =
      mantissa * 2 ^ exponent := by
  have split : exponent = (exponent.toNat : Int) - (-exponent).toNat := by omega
  conv_rhs => rw [split, zpow_sub₀ two_ne_zero, zpow_natCast, zpow_natCast]
  simp only [Ratio.ofScaled, Nat.pow_eq, Nat.cast_mul, Nat.cast_pow, Nat.cast_ofNat]
  ring

/-- The meaning of a finite double, and its value as a ratio with a sign. -/
theorem meaning_value {x : Float} (finite : x.isFinite = true) : ∃ negative mantissa exponent,
    meaning x = .number negative mantissa exponent ∧
      value x = (if negative then -1 else 1) * (mantissa * 2 ^ exponent) := by
  change x.toModel.unpack.isFinite = true at finite
  unfold value meaning
  generalize x.toModel.unpack = parts at finite
  cases parts with
  | infinity sign => cases finite
  | notANumber => cases finite
  | zero sign => exact ⟨_, _, _, rfl, by simp [unpackedValue]⟩
  | finite sign mantissa exponent positive =>
    refine ⟨_, _, _, rfl, ?_⟩
    cases sign <;> simp [unpackedValue]

section Splitting
variable {numerator denominator : Nat} (positive : 0 < denominator) {k : Int}
include positive

private theorem units_le (less : (numerator : Int) ≤ k * denominator) :
    (numerator * fixedOne / denominator : Int) ≤ k * fixedOne := by
  apply Int.ediv_le_of_le_mul (by exact_mod_cast positive)
  calc (numerator * fixedOne : Int) ≤ k * denominator * fixedOne := 
        mul_le_mul_of_nonneg_right less (Int.natCast_nonneg _)
    _ = k * fixedOne * denominator := by ring

private theorem units_ge (more : k * denominator ≤ (numerator : Int)) :
    k * fixedOne ≤ (numerator * fixedOne / denominator : Int) := by
  apply Int.le_ediv_of_mul_le (by exact_mod_cast positive)
  calc k * fixedOne * denominator = k * denominator * fixedOne := by ring
    _ ≤ (numerator * fixedOne : Int) := mul_le_mul_of_nonneg_right more (Int.natCast_nonneg _)

end Splitting

/-- The ratio that a power of ten is rounded from, for an exponent in fixed point. -/
def powerRatio (exponent : Int) : ℚ :=
  ((fixedExp ((exponent % fixedOne).toNat * logTen / fixedOne) * Nat.pow 10 (exponent / fixedOne).toNat : Nat) : ℚ) /
    (fixedOne * Nat.pow 10 (-(exponent / fixedOne)).toNat : Nat)

theorem fixedOne_pos : 0 < fixedOne :=
  Nat.two_pow_pos 256

private theorem quotient_tens (numerator denominator : ℚ) (exponent : Int) :
    numerator * 10 ^ exponent.toNat / (denominator * 10 ^ (-exponent).toNat) = numerator / denominator * 10 ^ exponent := by
  have split : exponent = (exponent.toNat : Int) - (-exponent).toNat := by omega
  conv_rhs => rw [split, zpow_sub₀ (by norm_num), zpow_natCast, zpow_natCast]
  exact mul_div_mul_comm _ _ _ _

theorem powerRatio_eq (exponent : Int) : powerRatio exponent =
    (fixedExp ((exponent % fixedOne).toNat * logTen / fixedOne) : ℚ) / fixedOne * 10 ^ (exponent / (fixedOne : Int)) := by
  simp only [powerRatio, Nat.pow_eq, Nat.cast_mul, Nat.cast_pow, Nat.cast_ofNat]
  exact quotient_tens _ _ _

private theorem powerRatio_le {exponent k : Int} (bound : exponent ≤ k * fixedOne) : powerRatio exponent ≤ 10 ^ k := by
  have unit : (0 : ℚ) < fixedOne := by exact_mod_cast fixedOne_pos
  have int_unit : (0 : Int) < fixedOne := by exact_mod_cast fixedOne_pos
  rw [powerRatio_eq]
  have whole : exponent / fixedOne ≤ k := Int.ediv_le_of_le_mul int_unit bound
  obtain less | same := whole.lt_or_eq
  · have rest : (exponent % fixedOne).toNat < fixedOne := by
      have := Int.emod_lt_of_pos exponent int_unit
      have := Int.emod_nonneg exponent int_unit.ne'
      omega
    have argument : (exponent % fixedOne).toNat * logTen / fixedOne ≤ logTen :=
      Nat.div_le_of_le_mul (Nat.mul_le_mul_right _ rest.le)
    have power := (fixedExp_mono argument).trans fixedExp_logTen
    have quotient : (fixedExp ((exponent % fixedOne).toNat * logTen / fixedOne) : ℚ) / fixedOne ≤ 10 := by
      rw [div_le_iff₀ unit]
      exact_mod_cast power
    calc _ ≤ (10 : ℚ) * 10 ^ (exponent / (fixedOne : Int)) := mul_le_mul_of_nonneg_right quotient (by positivity)
      _ = 10 ^ (exponent / (fixedOne : Int) + 1) := by rw [zpow_add_one₀ (by norm_num), mul_comm]
      _ ≤ 10 ^ k := zpow_le_zpow_right₀ (by norm_num) (by omega)
  · have split := Int.emod_add_mul_ediv exponent fixedOne
    have rest : exponent % fixedOne = 0 := by
      have := Int.emod_nonneg exponent int_unit.ne'
      rw [same] at split
      nlinarith
    rw [rest, same, Int.toNat_zero, Nat.zero_mul, Nat.zero_div, fixedExp_zero, div_self unit.ne', one_mul]

private theorem powerRatio_ge {exponent k : Int} (bound : k * fixedOne ≤ exponent) : 10 ^ k ≤ powerRatio exponent := by
  have unit : (0 : ℚ) < fixedOne := by exact_mod_cast fixedOne_pos
  have int_unit : (0 : Int) < fixedOne := by exact_mod_cast fixedOne_pos
  rw [powerRatio_eq]
  have whole : k ≤ exponent / fixedOne := Int.le_ediv_of_mul_le int_unit bound
  have quotient : (1 : ℚ) ≤ (fixedExp ((exponent % fixedOne).toNat * logTen / fixedOne) : ℚ) / fixedOne := by
    rw [le_div_iff₀ unit, one_mul]
    exact_mod_cast one_le_fixedExp _
  calc (10 : ℚ) ^ k ≤ 10 ^ (exponent / (fixedOne : Int)) := zpow_le_zpow_right₀ (by norm_num) whole
    _ = 1 * 10 ^ (exponent / (fixedOne : Int)) := (one_mul _).symm
    _ ≤ _ := mul_le_mul_of_nonneg_right quotient (by positivity)

private theorem ofRatio_power (exponent : Int) : ∃ r, Rounds (powerRatio exponent) r ∧ Packed .positive
    (ofRatio (fixedExp ((exponent % fixedOne).toNat * logTen / fixedOne) * Nat.pow 10 (exponent / fixedOne).toNat)
      (fixedOne * Nat.pow 10 (-(exponent / fixedOne)).toNat)) r :=
  ofRatio_packed (Nat.mul_pos (fixedOne_pos.trans_le (one_le_fixedExp _)) (Nat.pow_pos (by norm_num)))
    (Nat.mul_pos fixedOne_pos (Nat.pow_pos (by norm_num)))

/-- An exponent in fixed point is within one unit of the exponent, and between the same whole numbers. -/
structure Fixed (worth : ℚ) (exponent : Int) : Prop where
  near : |worth * fixedOne - exponent| ≤ 1
  least : ∀ k : Int, k ≤ worth → k * fixedOne ≤ exponent
  most : ∀ k : Int, worth ≤ k → exponent ≤ k * fixedOne

private theorem fixed_ratio (size : Ratio) :
    Fixed (size.numerator / size.denominator : ℚ) (size.numerator * fixedOne / size.denominator : Int) := by
  have positive := size.positive
  have unit : (0 : ℚ) < size.denominator := by exact_mod_cast positive
  refine ⟨?_, fun k bound => units_ge positive ?_, fun k bound => units_le positive ?_⟩
  · have quotient : (size.numerator / size.denominator : ℚ) * fixedOne =
        ((size.numerator * fixedOne : Int) : ℚ) / ((size.denominator : Nat) : ℚ) := by
      rw [Int.cast_mul, Int.cast_natCast, Int.cast_natCast]
      exact div_mul_eq_mul_div _ _ _
    rw [quotient, ← Rat.floor_intCast_div_natCast, abs_of_nonneg (sub_nonneg.mpr (Int.floor_le _))]
    linarith [Int.lt_floor_add_one (((size.numerator * fixedOne : Int) : ℚ) / ((size.denominator : Nat) : ℚ))]
  · rw [le_div_iff₀ unit] at bound
    exact_mod_cast bound
  · rw [div_le_iff₀ unit] at bound
    exact_mod_cast bound

private theorem Fixed.neg {worth : ℚ} {exponent : Int} (fixed : Fixed worth exponent) : Fixed (-worth) (-exponent) := by
  refine ⟨?_, fun k bound => ?_, fun k bound => ?_⟩
  · have turned : -worth * fixedOne - (-exponent : Int) = -(worth * fixedOne - exponent) := by
      push_cast
      ring
    rw [turned, abs_neg]
    exact fixed.near
  · rw [le_neg, ← Int.cast_neg] at bound
    have := fixed.most (-k) bound
    linarith
  · rw [neg_le, ← Int.cast_neg] at bound
    have := fixed.least (-k) bound
    linarith

/-- A power of ten is rounded from the ratio for its exponent in fixed point, unless the exponent is so large that the
power is certainly zero or an infinity. -/
theorem tenToThe_cases {x : Float} (finite : x.isFinite = true) :
    (∃ exponent r, |value x| < 400 ∧ Fixed (value x) exponent ∧ Rounds (powerRatio exponent) r ∧
      Packed .positive (tenToThe x) r) ∨
    (value x ≤ -400 ∧ tenToThe x = 0) ∨ (400 ≤ value x ∧ tenToThe x = 1 / 0) := by
  obtain ⟨negative, mantissa, exponent, number, worth⟩ := meaning_value finite
  rw [← ofScaled_value mantissa exponent] at worth
  have unfolded : tenToThe x =
      let size := Ratio.ofScaled mantissa exponent
      if 400 * size.denominator ≤ size.numerator then if negative then 0 else 1 / 0
      else
        let units : Int := size.numerator * fixedOne / size.denominator
        let signed := if negative then -units else units
        ofRatio (fixedExp ((signed % fixedOne).toNat * logTen / fixedOne) * Nat.pow 10 (signed / fixedOne).toNat)
          (fixedOne * Nat.pow 10 (-(signed / fixedOne)).toNat) := by
    rw [tenToThe, number]
  rw [unfolded]
  generalize Ratio.ofScaled mantissa exponent = size at worth
  have unit : (0 : ℚ) < size.denominator := by exact_mod_cast size.positive
  have fixed := fixed_ratio size
  simp only
  split
  next large =>
    have bound : (400 : ℚ) ≤ size.numerator / size.denominator := by
      rw [le_div_iff₀ unit]
      exact_mod_cast large
    cases negative with
    | true => exact .inr (.inl ⟨by rw [worth, if_pos rfl]; linarith, rfl⟩)
    | false => exact .inr (.inr ⟨by rw [worth, if_neg Bool.false_ne_true]; linarith, rfl⟩)
  next small =>
    have nonneg : (0 : ℚ) ≤ size.numerator / size.denominator := by positivity
    have bound : (size.numerator / size.denominator : ℚ) < 400 := by
      rw [div_lt_iff₀ unit]
      exact_mod_cast not_le.mp small
    generalize (size.numerator * fixedOne / size.denominator : Int) = units at fixed ⊢
    obtain ⟨signed, isSigned⟩ : ∃ signed, signed = if negative = true then -units else units := ⟨_, rfl⟩
    rw [← isSigned]
    have fixes : |value x| < 400 ∧ Fixed (value x) signed := by
      rw [worth, isSigned]
      cases negative with
      | true =>
        rw [if_pos rfl, if_pos rfl, neg_one_mul, abs_neg, abs_of_nonneg nonneg]
        exact ⟨bound, fixed.neg⟩
      | false =>
        rw [if_neg Bool.false_ne_true, if_neg Bool.false_ne_true, one_mul, abs_of_nonneg nonneg]
        exact ⟨bound, fixed⟩
    obtain ⟨r, rounds, packed⟩ := ofRatio_power signed
    exact .inl ⟨signed, r, fixes.1, fixes.2, rounds, packed⟩

private theorem power_le {k mantissa exponent : Nat} (bound : 10 ^ k ≤ mantissa * 2 ^ exponent) :
    (10 : ℚ) ^ (k : Int) ≤ mantissa * 2 ^ (exponent : Int) := by
  rw [zpow_natCast, zpow_natCast]
  exact_mod_cast bound

private theorem power_ge {k mantissa exponent : Nat} (bound : mantissa * 2 ^ exponent ≤ 10 ^ k) :
    mantissa * 2 ^ (exponent : Int) ≤ (10 : ℚ) ^ (k : Int) := by
  rw [zpow_natCast, zpow_natCast]
  exact_mod_cast bound

private theorem greatest_canonical : Canonical (2 ^ 53 - 1) (971 : Nat) :=
  ⟨by norm_num, by norm_num, .inl (by norm_num)⟩

private theorem overflow_canonical : Canonical (2 ^ 52) (972 : Nat) :=
  ⟨by norm_num, by norm_num, .inl le_rfl⟩

theorem tenToThe_finite {x : Float} (finite : x.isFinite = true) (small : value x ≤ 308) :
    (tenToThe x).isFinite = true := by
  obtain ⟨exponent, r, -, fixed, rounds, packed⟩ | ⟨-, zero⟩ | ⟨large, -⟩ := tenToThe_cases finite
  · have bound : powerRatio exponent ≤ 10 ^ ((308 : Nat) : Int) :=
      powerRatio_le (fixed.most _ (by exact_mod_cast small))
    have most := rounds.le greatest_canonical (bound.trans (power_le (by decide +kernel)))
    cases packed with
    | finite finite _ _ => exact finite
    | infinite _ above => exact absurd above (most.trans_lt (below_overflow greatest_canonical le_rfl)).not_ge
  · rw [zero]
    rfl
  · linarith

theorem tenToThe_infinite {x : Float} (finite : x.isFinite = true) (large : 309 ≤ value x) :
    (tenToThe x).toModel.unpack = .infinity .positive := by
  obtain ⟨exponent, r, -, fixed, rounds, packed⟩ | ⟨small, -⟩ | ⟨-, infinite⟩ := tenToThe_cases finite
  · have bound : 10 ^ ((309 : Nat) : Int) ≤ powerRatio exponent :=
      powerRatio_ge (fixed.least _ (by exact_mod_cast large))
    have least := rounds.ge overflow_canonical ((power_ge (by decide +kernel)).trans bound)
    cases packed with
    | finite _ _ below => 
      have same : overflow = (2 ^ 52 : Nat) * 2 ^ ((972 : Nat) : Int) := by
        rw [overflow, Nat.cast_pow, ← zpow_natCast, Nat.cast_ofNat, ← zpow_add₀ two_ne_zero]
        rfl
      exact absurd least (same ▸ below).not_ge
    | infinite infinite _ => exact infinite
  · linarith
  · rw [infinite]
    rfl

/-- A power of ten is never less than zero and never no number. -/
theorem tenToThe_outcome {x : Float} (finite : x.isFinite = true) :
    (tenToThe x).isFinite = true ∨ (tenToThe x).toModel.unpack = .infinity .positive := by
  obtain ⟨exponent, r, -, -, rounds, packed⟩ | ⟨-, zero⟩ | ⟨-, infinite⟩ := tenToThe_cases finite
  · cases packed with
    | finite finite _ _ => exact .inl finite
    | infinite infinite _ => exact .inr infinite
  · exact .inl (zero ▸ rfl)
  · exact .inr (infinite ▸ rfl)

end Montage.Proofs.PowerBounds
