import Montage.Proofs.DoubleErrors
import Montage.Proofs.TimestampGrammar
import Montage.Proofs.TrackTimes

/-! The times of cues. A timestamp in the usual form is written with its own hours, minutes and seconds and the first two
digits of its fraction: the errors of the binary arithmetic in between are less than what is added to make up for them,
and that is less than the least fraction of eight digits. -/

namespace Montage.Proofs.CueTimes
open Subtitle Number DoubleValue DoubleWords DoubleErrors DecimalDigits TimestampGrammar TrackTimes

/-- A timestamp: two digits each of hours, minutes and seconds, and up to eight digits of a fraction behind a comma or a
point. -/
structure Stamp where
  hours : List Char
  minutes : List Char
  seconds : List Char
  separator : Char
  fraction : List Char
  hours_pair : IsPair hours
  minutes_pair : IsPair minutes
  minutes_less : valueOf minutes < 60
  seconds_pair : IsPair seconds
  seconds_less : valueOf seconds < 60
  separates : separator = ',' ∨ separator = '.'
  digits : ∀ c ∈ fraction, isDigit c = true
  any : fraction ≠ []
  few : fraction.length ≤ 8

namespace Stamp

def text (stamp : Stamp) : String :=
  String.ofList (stamp.hours ++ ':' :: stamp.minutes ++ ':' :: stamp.seconds ++ stamp.separator :: stamp.fraction)

/-- The timestamp as a track has it: the hours without a leading zero, and two digits of the fraction. -/
def shown (stamp : Stamp) : String :=
  let hours := if stamp.hours.head? = some '0' then stamp.hours.tail else stamp.hours
  String.ofList (hours ++ ':' :: stamp.minutes ++ ':' :: stamp.seconds ++ '.' :: (stamp.fraction ++ ['0']).take 2)

def whole (stamp : Stamp) : Nat :=
  3600 * valueOf stamp.hours + 60 * valueOf stamp.minutes + valueOf stamp.seconds

/-- The fraction of a timestamp in units of its eighth digit. -/
def units (stamp : Stamp) : Nat :=
  valueOf stamp.fraction * 10 ^ (8 - stamp.fraction.length)

theorem whole_lt (stamp : Stamp) : stamp.whole < 360000 := by
  have := pair_small stamp.hours_pair
  have := stamp.minutes_less
  have := stamp.seconds_less
  unfold whole
  omega

theorem units_lt (stamp : Stamp) : stamp.units < 10 ^ 8 := by
  calc stamp.units < 10 ^ stamp.fraction.length * 10 ^ (8 - stamp.fraction.length) :=
        Nat.mul_lt_mul_of_pos_right (valueOf_lt stamp.digits) (by positivity)
    _ = 10 ^ 8 := by rw [← pow_add, Nat.add_sub_cancel' stamp.few]

theorem fraction_units (stamp : Stamp) :
    (valueOf stamp.fraction : ℚ) / 10 ^ stamp.fraction.length = stamp.units / 10 ^ 8 := by
  have split : (10 : ℚ) ^ 8 = 10 ^ stamp.fraction.length * 10 ^ (8 - stamp.fraction.length) := by
    rw [← pow_add, Nat.add_sub_cancel' stamp.few]
  rw [split, units, Nat.cast_mul, Nat.cast_pow, Nat.cast_ofNat]
  exact (mul_div_mul_right _ _ (by positivity)).symm

end Stamp

section Shown

private theorem hours_number {hours : List Char} (pair : IsPair hours) :
    IsNumber (if hours.head? = some '0' then hours.tail else hours) ∧
      valueOf (if hours.head? = some '0' then hours.tail else hours) = valueOf hours := by
  obtain ⟨first, second, rfl, one, two⟩ := pair_cases pair
  split
  next zero =>
    obtain rfl := Option.some.inj zero
    refine ⟨⟨by simpa using two, by simp, fun lead => congrArg (fun c => [c]) (Option.some.inj lead)⟩, ?_⟩
    rw [valueOf_pair]
    simp [valueOf, digitValue]
  next lead => exact ⟨⟨pair.all, by simp, fun zero => absurd zero lead⟩, rfl⟩

private theorem hundredths_pair (stamp : Stamp) : IsPair ((stamp.fraction ++ ['0']).take 2) ∧
    valueOf ((stamp.fraction ++ ['0']).take 2) = stamp.units / 10 ^ 6 := by
  have digits := stamp.digits
  have few := stamp.few
  unfold Stamp.units
  cases fraction : stamp.fraction with
  | nil => exact absurd fraction stamp.any
  | cons first rest =>
    rw [fraction] at digits few
    cases rest with
    | nil =>
      have tenth : isDigit first = true := digits first (by simp)
      refine ⟨⟨by simp [tenth, show isDigit '0' = true by decide], rfl⟩, ?_⟩
      have value : valueOf [first] = digitValue first := Nat.zero_add _
      have zero : digitValue '0' = 0 := rfl
      change valueOf [first, '0'] = valueOf [first] * 10 ^ 7 / 10 ^ 6
      rw [valueOf_pair, value, zero]
      omega
    | cons second others =>
      have pair : IsPair [first, second] :=
        ⟨fun c member => digits c (List.mem_append_left others member), rfl⟩
      refine ⟨by simpa using pair, ?_⟩
      have split := valueOf_append [first, second] others
      have least : others.length ≤ 6 := by
        simp only [List.length_cons] at few
        omega
      have less : valueOf others < 10 ^ others.length := valueOf_lt fun c member => digits c (by simp [member])
      have rest : valueOf others * 10 ^ (6 - others.length) < 10 ^ 6 := by
        calc valueOf others * 10 ^ (6 - others.length) < 10 ^ others.length * 10 ^ (6 - others.length) :=
              Nat.mul_lt_mul_of_pos_right less (by positivity)
          _ = 10 ^ 6 := by rw [← pow_add, Nat.add_sub_cancel' least]
      have scaled : valueOf (first :: second :: others) * 10 ^ (8 - (first :: second :: others).length) =
          10 ^ 6 * valueOf [first, second] + valueOf others * 10 ^ (6 - others.length) := by
        change valueOf ([first, second] ++ others) * 10 ^ (8 - (others.length + 2)) = _
        rw [split, Nat.add_mul, mul_assoc, ← pow_add, show 8 - (others.length + 2) = 6 - others.length by omega,
          Nat.add_sub_cancel' least, mul_comm]
      rw [scaled, Nat.mul_add_div (by positivity), Nat.div_eq_of_lt rest, Nat.add_zero]
      rfl

private theorem shown_time (stamp : Stamp) : IsTime stamp.shown.toList (100 * stamp.whole + stamp.units / 10 ^ 6) := by
  obtain ⟨hours, hours_value⟩ := hours_number stamp.hours_pair
  obtain ⟨pair, pair_value⟩ := hundredths_pair stamp
  have time := IsTime.mk hours stamp.minutes_pair stamp.minutes_less stamp.seconds_pair stamp.seconds_less pair
  rw [Stamp.shown, String.toList_ofList]
  rw [hours_value, pair_value] at time
  rw [show 100 * stamp.whole + stamp.units / 10 ^ 6 = 360000 * valueOf stamp.hours + 6000 * valueOf stamp.minutes +
    100 * valueOf stamp.seconds + stamp.units / 10 ^ 6 by unfold Stamp.whole; omega]
  exact time

end Shown

section Reading

theorem word_pair {digits : List Char} (pair : IsPair digits) : IsWord digits (.ofNat (valueOf digits)) := by
  have small : valueOf digits < UInt32.size := (pair_small pair).trans (by decide)
  obtain ⟨first, second, rfl, -, -⟩ := pair_cases pair
  exact .plain ⟨pair.all, List.cons_ne_nil _ _⟩ (UInt32.toNat_ofNat_of_lt' small).symm

private theorem timestamp_stamp (stamp : Stamp) : IsTimestamp stamp.text.toList (.ofNat (valueOf stamp.hours))
    (.ofNat (valueOf stamp.minutes)) (.ofNat (valueOf stamp.seconds)) (some stamp.fraction) := by
  have spelled := IsSeconds.divided (word_pair stamp.seconds_pair) stamp.separates ⟨stamp.digits, stamp.any⟩
  have bare : ∀ c ∈ ([] : List Char), Text.isBlank c = true := List.forall_mem_nil _
  have timestamp := IsTimestamp.mk bare (word_pair stamp.hours_pair) (word_pair stamp.minutes_pair) spelled bare
  simpa [Stamp.text] using timestamp

private theorem parseTime_stamp (stamp : Stamp) : parseTime stamp.text = some (secondsOf (.ofNat (valueOf stamp.hours))
    (.ofNat (valueOf stamp.minutes)) (.ofNat (valueOf stamp.seconds)) stamp.fraction) := by
  rw [parseTime_spelled (timestamp_stamp stamp), Option.getD_some]

end Reading

section Errors

theorem tens_exact : ∀ k : Fin 9, getElem Float.exactlyRepresentablePowersOfTen k.val
    (k.isLt.trans_le (by decide)) = .ofModel (.ofNat (10 ^ k.val)) := by
  decide

private theorem ofDecimal_quotient {significand places : Nat} (small : significand < 2 ^ 53) (few : places < 8) :
    ofDecimal false significand (-(places + 1 : Nat)) =
      .ofModel (.ofNat significand) / .ofModel (.ofNat (10 ^ (places + 1))) := by
  have read : ofDecimal false significand (-(places + 1 : Nat)) = Float.ofScientific significand true (places + 1) := rfl
  have table := tens_exact ⟨places + 1, by omega⟩
  rw [read, Float.ofScientific, dif_pos ⟨small, by omega⟩]
  simp only [if_true, word_exact small]
  rw [table]

private theorem fraction_near (stamp : Stamp) : Near (ofDecimal false (valueOf stamp.fraction) (-stamp.fraction.length))
    (stamp.units / 10 ^ 8) (2 ^ (-53 : Int) / 2) := by
  obtain ⟨places, length⟩ := Nat.exists_eq_add_one.mpr (List.length_pos_iff.mpr stamp.any)
  have few := stamp.few
  have less := valueOf_lt stamp.digits
  have same := stamp.fraction_units
  rw [length] at few less same ⊢
  have power : 10 ^ (places + 1) ≤ 10 ^ 8 := Nat.pow_le_pow_right (by norm_num) few
  have below_one : (valueOf stamp.fraction : ℚ) / (10 ^ (places + 1) : Nat) < 1 := by
    rw [div_lt_one (by positivity)]
    exact_mod_cast less
  have quotient := near_quotient (-53) (by norm_num) (by norm_num) (by omega) (by omega) (by positivity) below_one
  rw [Nat.cast_pow, Nat.cast_ofNat, same] at quotient
  rw [ofDecimal_quotient (by omega) (by omega)]
  exact quotient

theorem whole_exact (stamp : Stamp) : ∃ sum : Float, sum.isFinite = true ∧ value sum = stamp.whole ∧
    seconds stamp.text = sum + ofDecimal false (valueOf stamp.fraction) (-stamp.fraction.length) := by
  have hours_small := pair_small stamp.hours_pair
  have minutes_small := pair_small stamp.minutes_pair
  have seconds_small := pair_small stamp.seconds_pair
  have word {n : Nat} (small : n < 100) :
      (UInt32.ofNat n).toFloat.isFinite = true ∧ value (UInt32.ofNat n).toFloat = n := by
    have exact := toFloat_exact (.ofNat n)
    rwa [UInt32.toNat_ofNat_of_lt' (small.trans (by decide))] at exact
  obtain ⟨hours_finite, hours⟩ := word hours_small
  obtain ⟨minutes_finite, minutes⟩ := word minutes_small
  obtain ⟨seconds_finite, seconds_value⟩ := word seconds_small
  have hour : value 3600 = (3600 : Nat) := literal_exact (by norm_num)
  have minute : value 60 = (60 : Nat) := literal_exact (by norm_num)
  obtain ⟨first_finite, first⟩ := mul_whole hours_finite rfl hours hour (by omega)
  obtain ⟨second_finite, second⟩ := mul_whole minutes_finite rfl minutes minute (by omega)
  obtain ⟨both_finite, both⟩ := add_whole first_finite second_finite first second (by omega)
  obtain ⟨sum_finite, sum⟩ := add_whole both_finite seconds_finite both seconds_value (by omega)
  refine ⟨_, sum_finite, ?_, ?_⟩
  · rw [sum, Stamp.whole, Nat.mul_comm 3600, Nat.mul_comm 60]
  · rw [seconds, parseTime_stamp]
    rfl

/-- The seconds of a timestamp are off by less than the accuracy of a sum below half a million. -/
private theorem seconds_near (stamp : Stamp) : Near (seconds stamp.text) (stamp.whole + stamp.units / 10 ^ 8)
    (0 + 2 ^ (-53 : Int) / 2 + 2 ^ (-34 : Int) / 2) := by
  obtain ⟨sum, finite, sum_value, same⟩ := whole_exact stamp
  have exact := near_exact finite (sum_value ▸ Nat.cast_nonneg _)
  have units : (stamp.units : ℚ) < 10 ^ 8 := by exact_mod_cast stamp.units_lt
  have whole : (stamp.whole : ℚ) + 1 ≤ 360000 := by exact_mod_cast stamp.whole_lt
  rw [sum_value] at exact
  rw [same]
  refine Near.add (-34) (by norm_num) (by norm_num) exact (fraction_near stamp) ?_
  norm_num
  linarith

private theorem near_atLeastZero {x : Float} {v error : ℚ} (near : Near x v error) : Near (atLeastZero x) v error := by
  unfold atLeastZero
  split
  next => exact near
  next none =>
    have zero : value 0 = 0 := rfl
    have least : value x ≤ 0 := (le_iff near.finite rfl).mp ((not_lt_iff rfl near.finite).mp none)
    have same : value x = value 0 := least.antisymm near.nonneg
    exact ⟨rfl, zero.ge, same ▸ near.above, same ▸ near.below⟩

/-- The milliseconds of a timestamp are cut off from its own digits: what is added is more than the error, and with it less
than a unit of the eighth digit. -/
private theorem milliseconds_stamp (stamp : Stamp) :
    (milliseconds (seconds stamp.text)).toNat = 1000 * stamp.whole + stamp.units / 10 ^ 5 := by
  have near := near_atLeastZero (seconds_near stamp)
  have whole_less := stamp.whole_lt
  have split : stamp.units = 10 ^ 5 * (stamp.units / 10 ^ 5) + stamp.units % 10 ^ 5 := (Nat.div_add_mod _ _).symm
  have rest_less : stamp.units % 10 ^ 5 + 1 ≤ 10 ^ 5 := Nat.mod_lt _ (by norm_num)
  have count_less : stamp.units / 10 ^ 5 < 1000 := Nat.div_lt_of_lt_mul stamp.units_lt
  rw [milliseconds]
  generalize atLeastZero (seconds stamp.text) = time at *
  generalize stamp.units / 10 ^ 5 = count at *
  generalize stamp.units % 10 ^ 5 = rest at *
  generalize stamp.whole = whole at *
  rw [split] at near
  have whole_most : (whole : ℚ) + 1 ≤ 360000 := by exact_mod_cast whole_less
  have count_most : (count : ℚ) + 1 ≤ 1000 := by exact_mod_cast count_less
  have rest_most : (rest : ℚ) + 1 ≤ 10 ^ 5 := by exact_mod_cast rest_less
  have rest_nonneg : (0 : ℚ) ≤ rest := rest.cast_nonneg
  have thousand : 0 ≤ value 1000 := by
    rw [value_thousand]
    norm_num
  have product := near.mul (-24) (by norm_num) (by norm_num) rfl thousand (by
    rw [value_thousand]
    push_cast
    norm_num
    linarith)
  rw [value_thousand] at product
  have allowance := @near_exact 1e-6 rfl (by rw [value_allowance]; norm_num)
  rw [value_allowance] at allowance
  have sum := product.add (-24) (by norm_num) (by norm_num) allowance (by
    push_cast
    norm_num
    linarith)
  have small : 1000 * whole + count ≤ greatestWord := by
    have words : greatestWord = 2 ^ 64 - 1 := rfl
    omega
  refine sum.cut ?_ ?_ small
  · push_cast
    norm_num
    linarith
  · push_cast
    norm_num
    linarith

end Errors

/-- A timestamp in the usual form is written with its own hours, minutes and seconds and with the first two digits of its
fraction. It is cut off and never carried, and it is never short of a hundredth. -/
theorem cue_time_exact (stamp : Stamp) : trackTime (seconds stamp.text) = stamp.shown := by
  have time := trackTime_time (seconds stamp.text)
  rw [milliseconds_stamp] at time
  have cut : (1000 * stamp.whole + stamp.units / 10 ^ 5) / 10 = 100 * stamp.whole + stamp.units / 10 ^ 6 := by omega
  rw [cut] at time
  exact String.toList_inj.mp (time_canonical time (shown_time stamp))

def lateStamp : Stamp where
  hours := ['9', '9']
  minutes := ['5', '9']
  seconds := ['5', '9']
  separator := ','
  fraction := ['9', '9', '9', '9', '9', '9', '9', '9']
  hours_pair := ⟨List.all_eq_true.mp rfl, rfl⟩
  minutes_pair := ⟨List.all_eq_true.mp rfl, rfl⟩
  minutes_less := by decide
  seconds_pair := ⟨List.all_eq_true.mp rfl, rfl⟩
  seconds_less := by decide
  separates := .inl rfl
  digits := List.all_eq_true.mp rfl
  any := by decide
  few := by decide

theorem late_stamp_exact : lateStamp.text = "99:59:59,99999999" ∧ trackTime (seconds lateStamp.text) = "99:59:59.99" :=
  ⟨rfl, (cue_time_exact lateStamp).trans rfl⟩

end Montage.Proofs.CueTimes
