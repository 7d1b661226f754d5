import Montage.Filter.Units
import Montage.Proofs.DoubleWords

/-! The factors that a rate is split into. Halving what is above two and doubling what is below a half lose nothing, so
that the factors multiply to the rate itself; and no other factors within the limits of one step are fewer. -/

namespace Montage.Proofs.TempoFactors
open Montage.Filter DoubleValue DoubleRounding DoubleArithmetic DoubleWords

/-- How a rate is split, without any bound on the number of factors. -/
inductive Splits : Float → List Float → Prop where
  | fast {rate : Float} {steps : List Float} (above : fastest < rate) (later : Splits (rate / 2) steps) :
      Splits rate (fastest :: steps)
  | slow {rate : Float} {steps : List Float} (most : ¬fastest < rate) (below : rate < slowest)
      (later : Splits (rate * 2) steps) : Splits rate (slowest :: steps)
  | one {rate : Float} (most : ¬fastest < rate) (least : ¬rate < slowest) (one : (rate == 1) = true) : Splits rate []
  | last {rate : Float} (most : ¬fastest < rate) (least : ¬rate < slowest) (other : (rate == 1) = false) :
      Splits rate [rate]

private theorem value_fastest : value fastest = 2 :=
  value_two

private theorem value_slowest : value slowest = 1 / 2 := by
  have encoded : value slowest = (2 ^ 52 : Nat) * 2 ^ (-53 : Int) := rfl
  rw [encoded]
  norm_num

private theorem value_one : value 1 = 1 :=
  (literal_exact (by norm_num)).trans Nat.cast_one

section Rates
variable {rate : Float} (finite : rate.isFinite = true)
include finite

theorem fast_iff : fastest < rate ↔ 2 < value rate := by
  rw [lt_iff rfl finite, value_fastest]

theorem slow_iff : rate < slowest ↔ value rate < 1 / 2 := by
  rw [lt_iff finite rfl, value_slowest]

theorem one_iff : (rate == 1) = true ↔ value rate = 1 := by
  rw [beq_iff finite rfl, value_one]

/-- A bound that the rate lies within by its powers of two is not reached. -/
private theorem within_ends {left : Nat} (some_left : 0 < left) (low : (1 / 2) ^ left ≤ value rate)
    (high : value rate ≤ 2 ^ left) : ∃ steps, tempoStepsWithin left rate = some steps := by
  induction left generalizing rate with
  | zero => exact absurd some_left (lt_irrefl 0)
  | succ left ih =>
    unfold tempoStepsWithin
    split
    next above =>
      have large := (fast_iff finite).mp above
      obtain ⟨half_finite, half⟩ := half_exact finite large
      have more : 0 < left := by
        by_contra none
        obtain rfl : left = 0 := by omega
        norm_num at high
        linarith
      have small : (1 / 2 : ℚ) ^ left ≤ 1 := pow_le_one₀ (by norm_num) (by norm_num)
      rw [pow_succ] at high
      obtain ⟨steps, ends⟩ := ih half_finite more (by rw [half]; linarith) (by rw [half]; linarith)
      exact ⟨_, by rw [ends, Option.map_some]⟩
    next most =>
      split
      next below =>
        have small := (slow_iff finite).mp below
        have positive : 0 < value rate := lt_of_lt_of_le (by positivity) low
        obtain ⟨double_finite, double⟩ := double_exact finite positive small
        have more : 0 < left := by
          by_contra none
          obtain rfl : left = 0 := by omega
          norm_num at low
          linarith
        have large : (1 : ℚ) ≤ 2 ^ left := one_le_pow₀ (by norm_num)
        rw [pow_succ] at low
        obtain ⟨steps, ends⟩ := ih double_finite more (by rw [double]; linarith) (by rw [double]; linarith)
        exact ⟨_, by rw [ends, Option.map_some]⟩
      next least =>
        split
        · exact ⟨_, rfl⟩
        · exact ⟨_, rfl⟩

/-- The search for factors ends by itself, and not by its bound. -/
theorem tempoSteps_ends (positive : 0 < value rate) : ∃ steps, tempoSteps rate = some steps := by
  obtain ⟨m, e, canonical, most, size⟩ := size_canonical finite
  rw [abs_of_pos positive] at size
  have some_mantissa : 1 ≤ m := by
    by_contra none
    obtain rfl : m = 0 := by omega
    rw [size, Nat.cast_zero, zero_mul] at positive
    exact lt_irrefl _ positive
  have least : (1 : ℚ) ≤ m := by exact_mod_cast some_mantissa
  have small : (m : ℚ) ≤ 2 ^ (53 : Int) := by exact_mod_cast canonical.small.le
  refine within_ends finite (by norm_num) ?_ ?_
  · calc (1 / 2 : ℚ) ^ 1100 = 2 ^ (-((1100 : Nat) : Int)) := by rw [one_div, inv_pow, zpow_neg, zpow_natCast]
      _ ≤ 2 ^ e := zpow_le_zpow_right₀ one_le_two (by have := canonical.least; omega)
      _ ≤ m * 2 ^ e := le_mul_of_one_le_left (by positivity) least
      _ = value rate := size.symm
  · calc value rate = m * 2 ^ e := size
      _ ≤ 2 ^ (53 : Int) * 2 ^ e := mul_le_mul_of_nonneg_right small (by positivity)
      _ = 2 ^ (53 + e) := (zpow_add₀ two_ne_zero _ _).symm
      _ ≤ 2 ^ ((1100 : Nat) : Int) := zpow_le_zpow_right₀ one_le_two (by omega)
      _ = 2 ^ 1100 := zpow_natCast _ _

end Rates

theorem splits_within {left : Nat} {rate : Float} {steps : List Float}
    (ends : tempoStepsWithin left rate = some steps) : Splits rate steps := by
  induction left generalizing rate steps with
  | zero => cases ends
  | succ left ih =>
    unfold tempoStepsWithin at ends
    split at ends
    next above =>
      obtain ⟨later, found, rfl⟩ := Option.map_eq_some_iff.mp ends
      exact .fast above (ih found)
    next most =>
      split at ends
      next below =>
        obtain ⟨later, found, rfl⟩ := Option.map_eq_some_iff.mp ends
        exact .slow most below (ih found)
      next least =>
        split at ends
        next one =>
          cases ends
          exact .one most least one
        next other =>
          cases ends
          exact .last most least (by simpa using other)

section Endless
variable {rate : Float}

private theorem finite_of_unpack {parts : Float.Model.UnpackedFloat} (unpacks : rate.toModel.unpack = parts)
    (finite : parts.isFinite = true) : rate.isFinite = true := by
  change rate.toModel.unpack.isFinite = true
  rw [unpacks, finite]

/-- What is at most zero, negative infinity included. -/
private inductive NotAbove (rate : Float) : Prop where
  | infinite (infinite : rate.toModel.unpack = .infinity .negative)
  | finite (finite : rate.isFinite = true) (most : value rate ≤ 0)

private theorem notAbove_of_le (most : rate ≤ 0) : NotAbove rate := by
  have below : (rate.toModel.unpack.compare (.zero .positive)).any (·.isLE) = true := le_compares.mp most
  by_cases finite : rate.isFinite = true
  · exact .finite finite ((le_iff finite rfl).mp most)
  · cases unpacks : rate.toModel.unpack with
    | zero sign => exact absurd (finite_of_unpack unpacks rfl) finite
    | finite => exact absurd (finite_of_unpack unpacks rfl) finite
    | notANumber =>
      rw [unpacks] at below
      cases below
    | infinity sign =>
      rw [unpacks] at below
      cases sign with
      | negative => exact .infinite unpacks
      | positive => cases below

private theorem NotAbove.slow (notAbove : NotAbove rate) : ¬fastest < rate ∧ rate < slowest := by
  cases notAbove with
  | infinite infinite =>
    rw [lt_compares, lt_compares, infinite]
    decide
  | finite finite most =>
    rw [fast_iff finite, slow_iff finite]
    constructor <;> linarith

/-- Doubling what is not above zero does not bring it above zero. -/
private theorem NotAbove.double (notAbove : NotAbove rate) : NotAbove (rate * 2) := by
  have product : rate * 2 = .ofModel (.pack (.mul .binary64 rate.toModel.unpack (2 : Float).toModel.unpack)) := rfl
  cases notAbove with
  | infinite infinite =>
    refine .infinite ?_
    rw [product, infinite]
    rfl
  | finite finite most =>
    have parts := unpacked rate
    change rate.toModel.unpack.isFinite = true at finite
    rw [product]
    unfold value at most
    generalize rate.toModel.unpack = first at *
    cases parts with
    | infinity sign => cases finite
    | notANumber => cases finite
    | zero sign =>
      have zero : Float.Model.UnpackedFloat.mul .binary64 (.zero sign) (2 : Float).toModel.unpack = .zero (sign * .positive) := rfl
      rw [zero]
      cases packed_zero (sign * .positive) with
      | finite finite zero _ => exact .finite finite zero.le
      | infinite infinite above => exact absurd above (by unfold overflow; norm_num)
    | @finite sign m e some_mantissa canonical _ =>
      cases sign with
      | positive =>
        have size : (0 : ℚ) < m * 2 ^ e := by positivity
        exact absurd most size.not_ge
      | negative =>
        have two : (2 : Float).toModel.unpack = .finite .positive (2 ^ 52) (-51) (by norm_num) := rfl
        have two_canonical : Canonical (2 ^ 52) (-51) := ⟨by norm_num, by norm_num, .inl le_rfl⟩
        obtain ⟨r, rounds, result⟩ := @mul_rounds .negative .positive m (2 ^ 52) e (-51) some_mantissa (by norm_num)
          (product_reaches some_mantissa (by norm_num) canonical two_canonical)
        rw [two]
        cases result.packed with
        | finite finite worth _ =>
          have minus : value _ = -r := worth
          exact .finite finite (by rw [minus]; linarith [rounds.nonneg])
        | infinite infinite _ => exact .infinite infinite

private theorem infinity_fast (infinite : rate.toModel.unpack = .infinity .positive) :
    fastest < rate ∧ (rate / 2).toModel.unpack = .infinity .positive := by
  have quotient : rate / 2 = .ofModel (.pack (.div .binary64 rate.toModel.unpack (2 : Float).toModel.unpack)) := rfl
  rw [lt_compares, quotient, infinite]
  exact ⟨by decide, rfl⟩

/-- No step brings such a rate between its limits, so that the search goes on for ever. -/
private theorem within_endless (endless : NotAbove rate ∨ rate.toModel.unpack = .infinity .positive) (left : Nat) :
    tempoStepsWithin left rate = none := by
  induction left generalizing rate with
  | zero => rfl
  | succ left ih =>
    unfold tempoStepsWithin
    obtain notAbove | infinite := endless
    · obtain ⟨most, below⟩ := notAbove.slow
      rw [if_neg most, if_pos below, ih (.inl notAbove.double), Option.map_none]
    · obtain ⟨above, half⟩ := infinity_fast infinite
      rw [if_pos above, ih (.inr half), Option.map_none]

private theorem undefined_ends (undefined : rate.toModel.unpack = .notANumber) : tempoSteps rate = some [rate] := by
  have above : ¬fastest < rate := by
    rw [lt_compares, undefined]
    decide
  have below : ¬rate < slowest := by
    rw [lt_compares, undefined]
    decide
  have other : ¬(rate == 1) = true := by
    change ¬(rate.toModel.unpack.compare (1 : Float).toModel.unpack == some Ordering.eq) = true
    rw [undefined]
    decide
  rw [tempoSteps, tempoStepsWithin, if_neg above, if_neg below, if_neg other]

end Endless

/-- The rates for which the search for factors does not end. -/
def Unsplit (rate : Float) : Prop :=
  rate ≤ 0 ∨ rate.isInf = true

private theorem within_unsplit {rate : Float} (unsplit : Unsplit rate) (left : Nat) :
    tempoStepsWithin left rate = none := by
  obtain most | infinite := unsplit
  · exact within_endless (.inl (notAbove_of_le most)) left
  · change rate.toModel.unpack.isInf = true at infinite
    cases unpacks : rate.toModel.unpack with
    | infinity sign =>
      cases sign with
      | positive => exact within_endless (.inr unpacks) left
      | negative => exact within_endless (.inl (.infinite unpacks)) left
    | _ =>
      rw [unpacks] at infinite
      cases infinite

theorem tempoSteps_none {rate : Float} : tempoSteps rate = none ↔ Unsplit rate := by
  constructor
  · intro none
    by_contra split
    obtain ⟨above, bounded⟩ := not_or.mp split
    cases unpacks : rate.toModel.unpack with
    | notANumber =>
      rw [undefined_ends unpacks] at none
      cases none
    | infinity sign =>
      apply bounded
      change rate.toModel.unpack.isInf = true
      rw [unpacks]
      rfl
    | _ =>
      have finite : rate.isFinite = true := finite_of_unpack unpacks rfl
      rw [le_iff finite rfl, not_le] at above
      obtain ⟨steps, ends⟩ := tempoSteps_ends finite above
      rw [none] at ends
      cases ends
  · exact fun unsplit => within_unsplit unsplit 1100

/-- The form of a split: no factor for a rate of one, and otherwise equal factors and a last one. -/
inductive Shape (rate : ℚ) (factors : List ℚ) : Prop where
  | one (unit : rate = 1) (none : factors = [])
  | fast (count : Nat) (last : ℚ) (above : 1 < last) (most : last ≤ 2) (product : rate = 2 ^ count * last)
      (form : factors = List.replicate count 2 ++ [last])
  | slow (count : Nat) (last : ℚ) (least : 1 / 2 ≤ last) (below : last < 1) (product : rate = (1 / 2) ^ count * last)
      (form : factors = List.replicate count (1 / 2) ++ [last])

theorem Shape.double {rate : ℚ} {factors : List ℚ} (shape : Shape rate factors) (above : 1 < rate) :
    Shape (2 * rate) (2 :: factors) := by
  cases shape with
  | one unit => exact absurd unit above.ne'
  | fast count last more most product form =>
    exact .fast (count + 1) last more most (by rw [product]; ring) (by rw [form]; rfl)
  | slow count last least below product =>
    have small : (1 / 2 : ℚ) ^ count ≤ 1 := pow_le_one₀ (by norm_num) (by norm_num)
    have tiny : (1 / 2 : ℚ) ^ count * last < 1 := mul_lt_one_of_nonneg_of_lt_one_right small (by linarith) below
    exact absurd above (by rw [product]; exact tiny.not_gt)

theorem Shape.half {rate : ℚ} {factors : List ℚ} (shape : Shape rate factors) (below : rate < 1) :
    Shape (1 / 2 * rate) (1 / 2 :: factors) := by
  cases shape with
  | one unit => exact absurd unit below.ne
  | fast count last more most product =>
    have large : (1 : ℚ) ≤ 2 ^ count := one_le_pow₀ (by norm_num)
    have huge : 1 < (2 : ℚ) ^ count * last := one_lt_mul large more
    exact absurd below (by rw [product]; exact huge.not_gt)
  | slow count last least less product form =>
    exact .slow (count + 1) last least less (by rw [product]; ring) (by rw [form]; rfl)

/-- Every split has its form, and consists of finite factors. -/
theorem splits_shape {rate : Float} {steps : List Float} (splits : Splits rate steps) (finite : rate.isFinite = true)
    (positive : 0 < value rate) : Shape (value rate) (steps.map value) ∧ ∀ step ∈ steps, step.isFinite = true := by
  induction splits with
  | @fast rate steps above later ih =>
    have large := (fast_iff finite).mp above
    obtain ⟨half_finite, half⟩ := half_exact finite large
    obtain ⟨shape, all⟩ := ih half_finite (by rw [half]; linarith)
    have whole := shape.double (by rw [half]; linarith)
    rw [half, mul_div_cancel₀ _ two_ne_zero] at whole
    rw [List.map_cons, value_fastest]
    exact ⟨whole, List.forall_mem_cons.mpr ⟨rfl, all⟩⟩
  | @slow rate steps most below later ih =>
    have small := (slow_iff finite).mp below
    obtain ⟨double_finite, double⟩ := double_exact finite positive small
    obtain ⟨shape, all⟩ := ih double_finite (by rw [double]; linarith)
    have whole := shape.half (by rw [double]; linarith)
    rw [double, one_div_mul_eq_div, mul_div_cancel_right₀ _ two_ne_zero] at whole
    rw [List.map_cons, value_slowest]
    exact ⟨whole, List.forall_mem_cons.mpr ⟨rfl, all⟩⟩
  | one most least one => exact ⟨.one ((one_iff finite).mp one) rfl, nofun⟩
  | @last rate most least other =>
    refine ⟨?_, List.forall_mem_singleton.mpr finite⟩
    rw [fast_iff finite, not_lt] at most
    rw [slow_iff finite, not_lt] at least
    have apart : value rate ≠ 1 := fun same => by
      rw [(one_iff finite).mpr same] at other
      cases other
    obtain below | above := apart.lt_or_gt
    · exact .slow 0 (value rate) least below (by simp) rfl
    · exact .fast 0 (value rate) above most (by simp) rfl

structure Decomposes (rate : ℚ) (factors : List ℚ) : Prop where
  product : factors.prod = rate
  range : ∀ factor ∈ factors, 1 / 2 ≤ factor ∧ factor ≤ 2 ∧ factor ≠ 1
  empty : factors = [] ↔ rate = 1
  fast : 2 < rate → ∀ factor ∈ factors.dropLast, factor = 2
  slow : rate < 1 / 2 → ∀ factor ∈ factors.dropLast, factor = 1 / 2
  alone : 1 / 2 ≤ rate → rate ≤ 2 → factors.dropLast = []
  fewest : ∀ others : List ℝ, (∀ factor ∈ others, 1 / 2 ≤ factor ∧ factor ≤ 2) → others.prod = rate →
    factors.length ≤ others.length

private theorem prod_between {factors : List ℝ} (range : ∀ factor ∈ factors, 1 / 2 ≤ factor ∧ factor ≤ 2) :
    (1 / 2) ^ factors.length ≤ factors.prod ∧ factors.prod ≤ 2 ^ factors.length := by
  induction factors with
  | nil => simp
  | cons factor rest ih =>
    obtain ⟨⟨least, most⟩, others⟩ := List.forall_mem_cons.mp range
    obtain ⟨low, high⟩ := ih others
    have positive : (0 : ℝ) < (1 / 2) ^ rest.length := by positivity
    rw [List.prod_cons, List.length_cons, pow_succ', pow_succ']
    constructor
    · exact mul_le_mul least low positive.le (by linarith)
    · exact mul_le_mul most high (by linarith) (by norm_num)

section Form
variable (step last : ℚ) (count : Nat)

private theorem form_product : (List.replicate count step ++ [last]).prod = step ^ count * last := by
  simp

theorem form_front : (List.replicate count step ++ [last]).dropLast = List.replicate count step :=
  List.dropLast_concat

private theorem form_length : (List.replicate count step ++ [last]).length = count + 1 := by
  simp

private theorem form_range {P : ℚ → Prop} (all : P step) (ended : P last) :
    ∀ factor ∈ List.replicate count step ++ [last], P factor := by
  rw [List.forall_mem_append, List.forall_mem_singleton]
  exact ⟨fun factor member => List.eq_of_mem_replicate member ▸ all, ended⟩

end Form

private theorem decomposes_fast {rate last : ℚ} {count : Nat} (above : 1 < last) (most : last ≤ 2)
    (product : rate = 2 ^ count * last) : Decomposes rate (List.replicate count 2 ++ [last]) := by
  have large : (1 : ℚ) ≤ 2 ^ count := one_le_pow₀ (by norm_num)
  have fast : 1 < rate := product ▸ one_lt_mul large above
  constructor
  · rw [form_product, product]
  · exact form_range 2 last count (by norm_num) ⟨by linarith, most, above.ne'⟩
  · exact ⟨fun none => by simp at none, fun unit => absurd unit fast.ne'⟩
  · rw [form_front]
    exact fun _ factor member => List.eq_of_mem_replicate member
  · exact fun slow => absurd fast (by linarith)
  · intro _ bound
    rw [form_front]
    cases count with
    | zero => rfl
    | succ count =>
      have more : (1 : ℚ) ≤ 2 ^ count := one_le_pow₀ (by norm_num)
      have huge : 1 < 2 ^ count * last := one_lt_mul more above
      rw [product, pow_succ'] at bound
      linarith
  · intro others range same
    rw [form_length]
    -- One factor less, each of at most two, falls short of the rate.
    by_contra fewer
    have bound := (prod_between range).2
    have grown : (2 : ℝ) ^ others.length ≤ 2 ^ count := pow_le_pow_right₀ (by norm_num) (by omega)
    have rest : (1 : ℝ) < last := by exact_mod_cast above
    have more : (2 : ℝ) ^ count < 2 ^ count * last := lt_mul_of_one_lt_right (by positivity) rest
    rw [same, product] at bound
    push_cast at bound
    linarith

private theorem decomposes_slow {rate last : ℚ} {count : Nat} (least : 1 / 2 ≤ last) (below : last < 1)
    (product : rate = (1 / 2) ^ count * last) : Decomposes rate (List.replicate count (1 / 2) ++ [last]) := by
  have small : (1 / 2 : ℚ) ^ count ≤ 1 := pow_le_one₀ (by norm_num) (by norm_num)
  have slow : rate < 1 := product ▸ mul_lt_one_of_nonneg_of_lt_one_right small (by linarith) below
  constructor
  · rw [form_product, product]
  · exact form_range (1 / 2) last count (by norm_num) ⟨least, by linarith, below.ne⟩
  · exact ⟨fun none => by simp at none, fun unit => absurd unit slow.ne⟩
  · exact fun fast => absurd slow (by linarith)
  · rw [form_front]
    exact fun _ factor member => List.eq_of_mem_replicate member
  · intro bound _
    rw [form_front]
    cases count with
    | zero => rfl
    | succ count =>
      have less : (1 / 2 : ℚ) ^ count ≤ 1 := pow_le_one₀ (by norm_num) (by norm_num)
      have tiny : (1 / 2 : ℚ) ^ count * last < 1 := mul_lt_one_of_nonneg_of_lt_one_right less (by linarith) below
      rw [product, pow_succ'] at bound
      linarith
  · intro others range same
    rw [form_length]
    by_contra fewer
    have bound := (prod_between range).1
    have shrunk : (1 / 2 : ℝ) ^ count ≤ (1 / 2) ^ others.length :=
      pow_le_pow_of_le_one (by norm_num) (by norm_num) (by omega)
    have rest : (last : ℝ) < 1 := by exact_mod_cast below
    have less : (1 / 2 : ℝ) ^ count * last < (1 / 2) ^ count := mul_lt_of_lt_one_right (by positivity) rest
    rw [same, product] at bound
    push_cast at bound
    linarith

theorem Shape.decomposes {rate : ℚ} {factors : List ℚ} (shape : Shape rate factors) : Decomposes rate factors := by
  cases shape with
  | one unit none =>
    subst unit none
    exact ⟨rfl, nofun, by simp, by simp, by simp, by simp, fun others _ _ => Nat.zero_le _⟩
  | fast count last above most product form => exact form ▸ decomposes_fast above most product
  | slow count last least below product form => exact form ▸ decomposes_slow least below product

/-- A positive rate is split by a search that ends, and the factors it is split into are as they have to be: their
product is the rate, none of them is out of range or of no effect, and there are no fewer ones. -/
theorem tempoSteps_exact {rate : Float} (finite : rate.isFinite = true) (positive : 0 < rate) : ∃ steps,
    tempoSteps rate = some steps ∧ Splits rate steps ∧ Decomposes (value rate) (steps.map value) := by
  have above : 0 < value rate := (lt_iff rfl finite).mp positive
  obtain ⟨steps, ends⟩ := tempoSteps_ends finite above
  have splits := splits_within ends
  exact ⟨steps, ends, splits, (splits_shape splits finite above).1.decomposes⟩

theorem fifth_exact : ∃ steps, tempoSteps 0.2 = some steps ∧ Splits 0.2 steps ∧
    Decomposes (value 0.2) (steps.map value) :=
  tempoSteps_exact rfl (by decide)

end Montage.Proofs.TempoFactors
