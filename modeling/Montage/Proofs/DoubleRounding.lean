import Montage.Proofs.DoubleValue

/-! The rounding of doubles. A mantissa with two residual bits stands for a value in units of its last place; the
bits are shifted without loss of what rounding needs, so that the result of an operation is the canonical double
nearest to the exact result, and a tie goes to the even mantissa. -/

namespace Montage.Proofs.DoubleRounding
open Float.Model Float.Model.UnpackedFloat DoubleValue

/-- Whether a mantissa with its residual bits stands for a value: the round bit counts for a half, and the sticky
bit tells whether there is anything below it. -/
def Stands (extended : ExtendedMantissa) (u : ℚ) : Prop :=
  ∃ rest : ℚ, u = extended.mantissa + (if extended.roundBit then 1 / 2 else 0) + rest ∧
    if extended.stickyBit then 0 < rest ∧ rest < 1 / 2 else rest = 0

section Bits
variable {extended : ExtendedMantissa} {u : ℚ}

theorem stands_exact (mantissa : Nat) : Stands (.ofMantissaAndAccuracy mantissa .exact) mantissa :=
  ⟨0, by simp [ExtendedMantissa.ofMantissaAndAccuracy], by simp [ExtendedMantissa.ofMantissaAndAccuracy]⟩

theorem stands_below (mantissa : Nat) {rest : ℚ} (positive : 0 < rest) (less : rest < 1 / 2) :
    Stands (.ofMantissaAndAccuracy mantissa (.inexact .lt)) (mantissa + rest) :=
  ⟨rest, by simp [ExtendedMantissa.ofMantissaAndAccuracy], positive, less⟩

theorem stands_half (mantissa : Nat) : Stands (.ofMantissaAndAccuracy mantissa (.inexact .eq)) (mantissa + 1 / 2) :=
  ⟨0, by simp [ExtendedMantissa.ofMantissaAndAccuracy], rfl⟩

theorem stands_above (mantissa : Nat) {rest : ℚ} (more : 1 / 2 < rest) (less : rest < 1) :
    Stands (.ofMantissaAndAccuracy mantissa (.inexact .gt)) (mantissa + rest) :=
  ⟨rest - 1 / 2, by simp [ExtendedMantissa.ofMantissaAndAccuracy], by linarith, by linarith⟩

theorem stands_bounds (stands : Stands extended u) : (extended.mantissa : ℚ) ≤ u ∧ u < extended.mantissa + 1 := by
  obtain ⟨mantissa, round, sticky⟩ := extended
  obtain ⟨rest, rfl, below⟩ := stands
  cases round <;> cases sticky <;> simp at below ⊢ <;> constructor <;> linarith

private theorem stands_shiftRightOne (stands : Stands extended u) : Stands extended.shiftRightOne (u / 2) := by
  obtain ⟨mantissa, round, sticky⟩ := extended
  obtain ⟨rest, rfl, below⟩ := stands
  have halves : (mantissa : ℚ) = 2 * (mantissa / 2 : Nat) + (mantissa % 2 : Nat) := by
    exact_mod_cast (Nat.div_add_mod mantissa 2).symm
  refine ⟨((if round then 1 / 2 else 0) + rest) / 2, ?_, ?_⟩
  · obtain even | odd := Nat.mod_two_eq_zero_or_one mantissa
    · rw [halves, even]
      simp [ExtendedMantissa.shiftRightOne, even]
      ring
    · rw [halves, odd]
      simp [ExtendedMantissa.shiftRightOne, odd]
      ring
  · cases round <;> cases sticky <;> simp [ExtendedMantissa.shiftRightOne] at below ⊢
    · exact below
    · constructor <;> linarith
    · rw [below]; norm_num
    · constructor <;> linarith

theorem stands_shiftRight (stands : Stands extended u) (count : Nat) : Stands (extended >>> count) (u / 2 ^ count) := by
  induction count with
  | zero => simpa using! stands
  | succ count ih =>
    have next := stands_shiftRightOne ih
    rw [div_div, ← pow_succ] at next
    exact next

/-- A whole number that is nearest to a value. A tie goes to the even number. -/
structure Nearest (n : Nat) (u : ℚ) : Prop where
  above : (n : ℚ) - 1 / 2 ≤ u
  below : u ≤ n + 1 / 2
  even : n % 2 = 1 → (n : ℚ) - 1 / 2 < u ∧ u < n + 1 / 2

private theorem nearest_rounded (stands : Stands extended u) : Nearest extended.roundedMantissa u := by
  obtain ⟨mantissa, round, sticky⟩ := extended
  obtain ⟨rest, rfl, below⟩ := stands
  cases round <;> cases sticky <;>
    simp only [ExtendedMantissa.roundedMantissa, ExtendedMantissa.accuracy, Accuracy.roundToNearestEven, if_true,
      Bool.false_eq_true, if_false] at below ⊢
  · exact ⟨by linarith, by linarith, fun _ => ⟨by linarith, by linarith⟩⟩
  · exact ⟨by linarith, by linarith, fun _ => ⟨by linarith, by linarith⟩⟩
  · obtain even | odd := Nat.mod_two_eq_zero_or_one mantissa
    · rw [even]
      exact ⟨by push_cast; linarith, by push_cast; linarith, fun odd => absurd odd (by omega)⟩
    · rw [odd]
      exact ⟨by push_cast; linarith, by push_cast; linarith, fun odd => absurd odd (by omega)⟩
  · exact ⟨by push_cast; linarith, by push_cast; linarith, fun _ => ⟨by push_cast; linarith, by push_cast; linarith⟩⟩

theorem Nearest.le {n k : Nat} (nearest : Nearest n u) (bound : u ≤ k) : n ≤ k := by
  by_contra more
  have next : (k : ℚ) + 1 ≤ n := by exact_mod_cast Nat.lt_of_not_le more
  linarith [nearest.above]

theorem Nearest.ge {n k : Nat} (nearest : Nearest n u) (bound : (k : ℚ) ≤ u) : k ≤ n := by
  by_contra less
  have next : (n : ℚ) + 1 ≤ k := by exact_mod_cast Nat.lt_of_not_le less
  linarith [nearest.below]

end Bits

/-- The exponent at which a value is rounded: its mantissa has 53 bits there, or it has fewer and the exponent is
the least one. -/
structure Target (v : ℚ) (target : Int) : Prop where
  least : -1074 ≤ target
  small : v < 2 ^ (53 + target)
  full : 2 ^ (52 + target) ≤ v ∨ target = -1074

inductive Rounds (v : ℚ) : ℚ → Prop where
  | mk {target : Int} {mantissa : Nat} (at_target : Target v target) (nearest : Nearest mantissa (v / 2 ^ target)) :
      Rounds v (mantissa * 2 ^ target)

/-- A result with a sign and a size, before it is packed. -/
inductive Result (sign : Sign) : Float.Model.UnpackedFloat → ℚ → Prop where
  | zero : Result sign (.zero sign) 0
  | finite {mantissa : Nat} {exponent : Int} (positive : 0 < mantissa) (canonical : Canonical mantissa exponent) :
      Result sign (.finite sign mantissa exponent positive) (mantissa * 2 ^ exponent)

theorem targetExponent_eq (total : Int) : Format.binary64.targetExponent total = max (total - 53) (-1074) := by
  rfl

section Rounding
variable {mantissa : Nat} {exponent : Int} {accuracy : Accuracy} {v : ℚ}
  (stands : Stands (.ofMantissaAndAccuracy mantissa accuracy) (v / 2 ^ exponent))
  (reaches : exponent ≤ Format.binary64.targetExponent (totalExponent mantissa exponent))
include stands

private theorem mantissa_bounds : (mantissa : ℚ) * 2 ^ exponent ≤ v ∧ v < (mantissa + 1) * 2 ^ exponent := by
  have unit : (0 : ℚ) < 2 ^ exponent := by positivity
  have bounds := stands_bounds stands
  have same : (ExtendedMantissa.ofMantissaAndAccuracy mantissa accuracy).mantissa = mantissa := by
    rcases accuracy with _ | (_ | _ | _) <;> rfl
  rw [same, le_div_iff₀ unit, div_lt_iff₀ unit] at bounds
  exact bounds

include reaches

private theorem target_of_stands : Target v (Format.binary64.targetExponent (totalExponent mantissa exponent)) := by
  obtain ⟨low, high⟩ := mantissa_bounds stands
  rw [targetExponent_eq] at reaches ⊢
  simp only [totalExponent] at reaches ⊢
  refine ⟨le_max_right _ _, ?_, ?_⟩
  · have next : (mantissa : ℚ) + 1 ≤ 2 ^ (mantissa.log2 + 1) := by exact_mod_cast Nat.lt_log2_self
    calc v < (mantissa + 1) * 2 ^ exponent := high
      _ ≤ 2 ^ (mantissa.log2 + 1) * 2 ^ exponent := mul_le_mul_of_nonneg_right next (by positivity)
      _ = 2 ^ (((mantissa.log2 + 1 : Nat) : Int) + exponent) := by rw [zpow_add₀ two_ne_zero, zpow_natCast]
      _ ≤ 2 ^ (53 + max ((mantissa.log2 : Int) + 1 + exponent - 53) (-1074)) :=
          zpow_le_zpow_right₀ one_le_two (by push_cast; omega)
  · by_cases deep : max ((mantissa.log2 : Int) + 1 + exponent - 53) (-1074) = -1074
    · exact .inr deep
    · have large : 52 ≤ mantissa.log2 := by omega
      have some_mantissa : mantissa ≠ 0 := by
        rintro rfl
        simp at large
      have power : (2 : ℚ) ^ mantissa.log2 ≤ mantissa := by exact_mod_cast Nat.log2_self_le some_mantissa
      refine .inl ?_
      calc (2 : ℚ) ^ (52 + max ((mantissa.log2 : Int) + 1 + exponent - 53) (-1074))
          ≤ 2 ^ ((mantissa.log2 : Int) + exponent) := zpow_le_zpow_right₀ one_le_two (by omega)
        _ = 2 ^ mantissa.log2 * 2 ^ exponent := by rw [zpow_add₀ two_ne_zero, zpow_natCast]
        _ ≤ mantissa * 2 ^ exponent := mul_le_mul_of_nonneg_right power (by positivity)
        _ ≤ v := low

end Rounding

theorem shiftToTargetExponent_eq {mantissa count : Nat} {exponent : Int} (accuracy : Accuracy)
    (distance : (Format.binary64.targetExponent (totalExponent mantissa exponent) - exponent).toNat = count) :
    shiftToTargetExponent .binary64 mantissa exponent accuracy =
      (ExtendedMantissa.ofMantissaAndAccuracy mantissa accuracy >>> count, exponent + count) := by
  rw [shiftToTargetExponent, shiftToExponent, distance]

/-- What rounding leaves is shifted once more, for it may have reached the next power of two. -/
def settle (sign : Sign) (rounded : Nat) (target : Int) : Float.Model.UnpackedFloat :=
  let shifted := shiftToTargetExponent .binary64 rounded target .exact
  if empty : shifted.1.mantissa = 0 then .zero sign
  else .finite sign shifted.1.mantissa shifted.2 (Nat.pos_of_ne_zero empty)

private theorem settle_small {target : Int} {rounded : Nat} (small : rounded < 2 ^ 53) (least : -1074 ≤ target)
    (full : 2 ^ 52 ≤ rounded ∨ target = -1074) (sign : Sign) :
    Result sign (settle sign rounded target) (rounded * 2 ^ target) := by
  have bits : rounded.log2 < 53 := by
    by_cases empty : rounded = 0
    · rw [empty]; simp
    · exact (Nat.log2_lt empty).mpr small
  have stays : (Format.binary64.targetExponent (totalExponent rounded target) - target).toNat = 0 := by
    rw [targetExponent_eq, totalExponent]
    omega
  simp only [settle, shiftToTargetExponent_eq .exact stays]
  change Result sign (if empty : rounded = 0 then _ else .finite sign rounded (target + 0) _) _
  split
  next empty =>
    rw [empty, Nat.cast_zero, zero_mul]
    exact .zero
  next some_mantissa =>
    simp only [add_zero]
    exact .finite _ ⟨small, least, full⟩

private theorem settle_carried {target : Int} (least : -1074 ≤ target) (sign : Sign) :
    Result sign (settle sign (2 ^ 53) target) ((2 ^ 53 : Nat) * 2 ^ target) := by
  have moves : (Format.binary64.targetExponent (totalExponent (2 ^ 53) target) - target).toNat = 1 := by
    rw [targetExponent_eq, totalExponent, Nat.log2_two_pow]
    omega
  simp only [settle, shiftToTargetExponent_eq .exact moves]
  have value : ((2 ^ 53 : Nat) : ℚ) * 2 ^ target = (2 ^ 52 : Nat) * 2 ^ (target + 1) := by
    rw [zpow_add_one₀ two_ne_zero]
    push_cast
    ring
  have canonical : Canonical (2 ^ 52) (target + 1) := ⟨by norm_num, by omega, .inl le_rfl⟩
  have result : Result sign (.finite sign (2 ^ 52) (target + 1) (by norm_num)) _ := .finite _ canonical
  rw [value]
  exact result

private theorem settle_result {v : ℚ} {target : Int} {rounded : Nat} (at_target : Target v target)
    (nearest : Nearest rounded (v / 2 ^ target)) (sign : Sign) :
    Result sign (settle sign rounded target) (rounded * 2 ^ target) := by
  have unit : (0 : ℚ) < 2 ^ target := by positivity
  have bound : rounded ≤ 2 ^ 53 := nearest.le (by
    rw [div_le_iff₀ unit]
    calc v ≤ 2 ^ (53 + target) := at_target.small.le
      _ = ((2 ^ 53 : Nat) : ℚ) * 2 ^ target := by rw [zpow_add₀ two_ne_zero]; norm_num)
  obtain small | rfl := Nat.lt_or_eq_of_le bound
  · have full : 2 ^ 52 ≤ rounded ∨ target = -1074 := at_target.full.imp_left fun full => nearest.ge (by
      rw [le_div_iff₀ unit]
      calc ((2 ^ 52 : Nat) : ℚ) * 2 ^ target = 2 ^ (52 + target) := by rw [zpow_add₀ two_ne_zero]; norm_num
        _ ≤ v := full)
    exact settle_small small at_target.least full sign
  · exact settle_carried at_target.least sign

/-- A result is rounded to its size, as long as no bits had to be invented. -/
theorem roundWithAccuracy_rounds {mantissa : Nat} {exponent : Int} {accuracy : Accuracy} {v : ℚ}
    (stands : Stands (.ofMantissaAndAccuracy mantissa accuracy) (v / 2 ^ exponent))
    (reaches : exponent ≤ Format.binary64.targetExponent (totalExponent mantissa exponent)) (sign : Sign) :
    ∃ r, Rounds v r ∧ Result sign (roundWithAccuracy .binary64 sign mantissa exponent accuracy) r := by
  have at_target := target_of_stands stands reaches
  set target := Format.binary64.targetExponent (totalExponent mantissa exponent) with target_eq
  obtain ⟨count, distance⟩ : ∃ count : Nat, target = exponent + count := ⟨(target - exponent).toNat, by omega⟩
  have shifted := stands_shiftRight stands count
  rw [div_div, ← zpow_natCast, ← zpow_add₀ two_ne_zero, ← distance] at shifted
  have nearest := nearest_rounded shifted
  have moved := @shiftToTargetExponent_eq mantissa count exponent accuracy (by rw [← target_eq]; omega)
  refine ⟨_, .mk at_target nearest, ?_⟩
  have settled := settle_result at_target nearest sign
  rw [roundWithAccuracy, moved, ← distance]
  exact settled

section Bounds
variable {v r : ℚ} {mantissa : Nat} {exponent : Int}

/-- At a greater exponent than that of a canonical value, that value is less than the least with a full mantissa. -/
theorem scaled_below {target : Int} (canonical : Canonical mantissa exponent) (less : exponent < target) :
    (mantissa : ℚ) * 2 ^ exponent < 2 ^ (52 + target) := by
  have small : (mantissa : ℚ) < 2 ^ 53 := by exact_mod_cast canonical.small
  calc (mantissa : ℚ) * 2 ^ exponent < 2 ^ 53 * 2 ^ exponent := mul_lt_mul_of_pos_right small (by positivity)
    _ = 2 ^ (53 + exponent) := by rw [zpow_add₀ two_ne_zero]; norm_num
    _ ≤ 2 ^ (52 + target) := zpow_le_zpow_right₀ one_le_two (by omega)

/-- The least size that no double has. -/
@[irreducible] def overflow : ℚ :=
  2 ^ (1024 : Int)

theorem below_overflow (canonical : Canonical mantissa exponent) (most : exponent ≤ 971) :
    (mantissa : ℚ) * 2 ^ exponent < overflow := by
  rw [overflow]
  exact scaled_below canonical (by omega : exponent < 972)

private theorem scaled_whole {target : Int} (reaches : target ≤ exponent) :
    ∃ whole : Nat, (mantissa : ℚ) * 2 ^ exponent = whole * 2 ^ target := by
  refine ⟨mantissa * 2 ^ (exponent - target).toNat, ?_⟩
  have shift : ((exponent - target).toNat : Int) + target = exponent := by omega
  rw [Nat.cast_mul, Nat.cast_pow, Nat.cast_ofNat, mul_assoc, ← zpow_natCast, ← zpow_add₀ two_ne_zero, shift]

/-- Rounding does not pass a canonical value. -/
theorem Rounds.le (rounds : Rounds v r) (canonical : Canonical mantissa exponent)
    (bound : v ≤ mantissa * 2 ^ exponent) : r ≤ mantissa * 2 ^ exponent := by
  obtain @⟨target, rounded, at_target, nearest⟩ := rounds
  have unit : (0 : ℚ) < 2 ^ target := by positivity
  obtain reaches | less := le_or_gt target exponent
  · obtain ⟨whole, same⟩ := @scaled_whole mantissa _ _ reaches
    rw [same] at bound ⊢
    have most : rounded ≤ whole := nearest.le ((div_le_iff₀ unit).mpr bound)
    exact mul_le_mul_of_nonneg_right (by exact_mod_cast most) unit.le
  · have full := at_target.full.resolve_right (by have := canonical.least; omega)
    linarith [scaled_below canonical less]

theorem Rounds.ge (rounds : Rounds v r) (canonical : Canonical mantissa exponent)
    (bound : mantissa * 2 ^ exponent ≤ v) : mantissa * 2 ^ exponent ≤ r := by
  obtain @⟨target, rounded, at_target, nearest⟩ := rounds
  have unit : (0 : ℚ) < 2 ^ target := by positivity
  obtain reaches | less := le_or_gt target exponent
  · obtain ⟨whole, same⟩ := @scaled_whole mantissa _ _ reaches
    rw [same] at bound ⊢
    have least : whole ≤ rounded := nearest.ge ((le_div_iff₀ unit).mpr bound)
    exact mul_le_mul_of_nonneg_right (by exact_mod_cast least) unit.le
  · have full := at_target.full.resolve_right (by have := canonical.least; omega)
    have least : 2 ^ 52 ≤ rounded := nearest.ge (by
      rw [le_div_iff₀ unit]
      calc ((2 ^ 52 : Nat) : ℚ) * 2 ^ target = 2 ^ (52 + target) := by rw [zpow_add₀ two_ne_zero]; norm_num
        _ ≤ v := full)
    calc (mantissa : ℚ) * 2 ^ exponent ≤ 2 ^ (52 + target) := (scaled_below canonical less).le
      _ = (2 ^ 52 : Nat) * 2 ^ target := by rw [zpow_add₀ two_ne_zero]; norm_num
      _ ≤ rounded * 2 ^ target := mul_le_mul_of_nonneg_right (by exact_mod_cast least) unit.le

end Bounds

section Order
variable {v w r q : ℚ} {mantissa : Nat} {exponent target other : Int}

theorem Target.mono (first : Target v target) (second : Target w other) (less : v ≤ w) : target ≤ other := by
  by_contra more
  have full := first.full.resolve_right (by have := second.least; omega)
  have small : (2 : ℚ) ^ (53 + other) ≤ 2 ^ (52 + target) := zpow_le_zpow_right₀ one_le_two (by omega)
  linarith [second.small]

theorem Rounds.le_power (rounds : Rounds v r) (least : -1074 ≤ target) (bound : v ≤ 2 ^ (53 + target)) :
    r ≤ 2 ^ (53 + target) := by
  have canonical : Canonical (2 ^ 52) (target + 1) := ⟨by norm_num, by omega, .inl le_rfl⟩
  have power : ((2 ^ 52 : Nat) : ℚ) * 2 ^ (target + 1) = 2 ^ (53 + target) := by
    rw [Nat.cast_pow, Nat.cast_ofNat, ← zpow_natCast, ← zpow_add₀ two_ne_zero]
    congr 1
    omega
  exact power ▸ rounds.le canonical (power ▸ bound)

theorem Rounds.ge_power (rounds : Rounds v r) (least : -1074 ≤ target) (bound : 2 ^ (52 + target) ≤ v) :
    2 ^ (52 + target) ≤ r := by
  have canonical : Canonical (2 ^ 52) target := ⟨by norm_num, least, .inl le_rfl⟩
  have power : ((2 ^ 52 : Nat) : ℚ) * 2 ^ target = 2 ^ (52 + target) := by
    rw [Nat.cast_pow, Nat.cast_ofNat, ← zpow_natCast, ← zpow_add₀ two_ne_zero]
    rfl
  exact power ▸ rounds.ge canonical (power ▸ bound)

theorem Nearest.mono {n k : Nat} {u t : ℚ} (first : Nearest n u) (second : Nearest k t) (less : u ≤ t) : n ≤ k := by
  by_contra more
  have next : (k : ℚ) + 1 ≤ n := by exact_mod_cast Nat.lt_of_not_le more
  have same : (n : ℚ) = k + 1 := by linarith [first.above, second.below]
  have step : n = k + 1 := by exact_mod_cast same
  obtain even | odd := Nat.mod_two_eq_zero_or_one k
  · linarith [(first.even (by omega)).1, second.below]
  · linarith [(second.even odd).2, first.above]

theorem Rounds.mono (first : Rounds v r) (second : Rounds w q) (less : v ≤ w) : r ≤ q := by
  obtain @⟨target, n, at_target, nearest⟩ := id first
  obtain @⟨other, k, at_other, nearest_other⟩ := id second
  obtain lower | rfl := (at_target.mono at_other less).lt_or_eq
  · have full := at_other.full.resolve_right (by have := at_target.least; omega)
    have bound : (2 : ℚ) ^ (53 + target) ≤ 2 ^ (52 + other) := zpow_le_zpow_right₀ one_le_two (by omega)
    calc (n : ℚ) * 2 ^ target ≤ 2 ^ (53 + target) := first.le_power at_target.least at_target.small.le
      _ ≤ 2 ^ (52 + other) := bound
      _ ≤ k * 2 ^ other := second.ge_power at_other.least full
  · have unit : (0 : ℚ) < 2 ^ target := by positivity
    have less : n ≤ k := nearest.mono nearest_other (div_le_div_of_nonneg_right less unit.le)
    exact mul_le_mul_of_nonneg_right (by exact_mod_cast less) unit.le

/-- Rounding changes a value by half a unit of its last place at most. -/
theorem Rounds.near (rounds : Rounds v r) (least : -1074 ≤ target) (bound : v < 2 ^ (53 + target)) :
    |r - v| ≤ 2 ^ target / 2 := by
  obtain @⟨place, n, at_place, nearest⟩ := rounds
  have unit : (0 : ℚ) < 2 ^ place := by positivity
  have lower : place ≤ target := by
    by_contra more
    have full := at_place.full.resolve_right (by omega)
    have small : (2 : ℚ) ^ (53 + target) ≤ 2 ^ (52 + place) := zpow_le_zpow_right₀ one_le_two (by omega)
    linarith
  have scaled : |(n : ℚ) - v / 2 ^ place| ≤ 1 / 2 := by
    rw [abs_le]
    constructor <;> linarith [nearest.above, nearest.below]
  calc |n * 2 ^ place - v| = |(n : ℚ) - v / 2 ^ place| * 2 ^ place := by
        rw [← abs_of_pos unit, ← abs_mul, abs_of_pos unit, sub_mul, div_mul_cancel₀ _ unit.ne']
    _ ≤ 1 / 2 * 2 ^ place := mul_le_mul_of_nonneg_right scaled unit.le
    _ ≤ 1 / 2 * 2 ^ target := mul_le_mul_of_nonneg_left (zpow_le_zpow_right₀ one_le_two lower) (by norm_num)
    _ = 2 ^ target / 2 := by ring

/-- A canonical value is rounded to itself. -/
theorem Rounds.exact (rounds : Rounds (mantissa * 2 ^ exponent) r) (canonical : Canonical mantissa exponent) :
    r = mantissa * 2 ^ exponent :=
  le_antisymm (rounds.le canonical le_rfl) (rounds.ge canonical le_rfl)

theorem rounds_canonical (canonical : Canonical mantissa exponent) :
    Rounds (mantissa * 2 ^ exponent) (mantissa * 2 ^ exponent) := by
  have unit : (0 : ℚ) < 2 ^ exponent := by positivity
  refine .mk ⟨canonical.least, ?_, ?_⟩ ?_
  · have small : (mantissa : ℚ) < 2 ^ 53 := by exact_mod_cast canonical.small
    calc (mantissa : ℚ) * 2 ^ exponent < 2 ^ 53 * 2 ^ exponent := mul_lt_mul_of_pos_right small unit
      _ = 2 ^ (53 + exponent) := by rw [zpow_add₀ two_ne_zero]; rfl
  · refine canonical.full.imp_left fun full => ?_
    have large : (2 : ℚ) ^ 52 ≤ mantissa := by exact_mod_cast full
    calc (2 : ℚ) ^ (52 + exponent) = 2 ^ 52 * 2 ^ exponent := by rw [zpow_add₀ two_ne_zero]; rfl
      _ ≤ mantissa * 2 ^ exponent := mul_le_mul_of_nonneg_right large unit.le
  · rw [mul_div_cancel_right₀ _ unit.ne']
    exact ⟨by linarith, by linarith, fun _ => ⟨by linarith, by linarith⟩⟩

end Order

theorem Rounds.nonneg {v r : ℚ} (rounds : Rounds v r) : 0 ≤ r := by
  obtain @⟨target, rounded, -, -⟩ := rounds
  positivity

def signed : Sign → ℚ → ℚ
  | .positive, size => size
  | .negative, size => -size

/-- What a result is once it is packed: finite below the overflow, and an infinity from there on. -/
inductive Packed (sign : Sign) (x : Float) (r : ℚ) : Prop where
  | finite (finite : x.isFinite = true) (value : value x = signed sign r) (below : r < overflow)
  | infinite (infinite : x.toModel.unpack = .infinity sign) (above : overflow ≤ r)

theorem Result.packed {sign : Sign} {result : Float.Model.UnpackedFloat} {r : ℚ} (has : Result sign result r) :
    Packed sign (.ofModel (.pack result)) r := by
  cases has with
  | zero =>
    have zero := unpack_pack_zero sign
    refine .finite ?_ ?_ (by unfold overflow; positivity)
    · change (Float.Model.pack (.zero sign)).unpack.isFinite = true
      rw [zero]
      rfl
    · change unpackedValue (Float.Model.pack (.zero sign)).unpack = _
      rw [zero]
      cases sign <;> simp [unpackedValue, signed]
  | @finite mantissa exponent positive canonical =>
    obtain most | large := le_or_gt exponent 971
    · have unpacked := unpack_pack sign positive canonical most
      refine .finite ?_ ?_ ?_
      · change (Float.Model.pack _).unpack.isFinite = true
        rw [unpacked]
        rfl
      · change unpackedValue (Float.Model.pack _).unpack = _
        rw [unpacked]
        cases sign <;> rfl
      · exact below_overflow canonical most
    · refine .infinite (unpack_pack_large large sign positive) ?_
      have full : 2 ^ 52 ≤ mantissa := canonical.full.resolve_right (by omega)
      calc overflow = 2 ^ 52 * 2 ^ (972 : Int) := by
            rw [overflow, ← zpow_natCast, ← zpow_add₀ two_ne_zero]
            rfl
        _ ≤ mantissa * 2 ^ exponent := by
            refine mul_le_mul (by exact_mod_cast full) ?_ (by positivity) (by positivity)
            exact zpow_le_zpow_right₀ one_le_two (by omega)

end Montage.Proofs.DoubleRounding
