import Montage.Proofs.DecimalDigits
import Montage.Proofs.DoubleOrder
import Montage.Subtitle.Document

/-! Times as a subtitle track has them. Every number of seconds is written in the one form that its hundredths have, and
the times of a track are in the order of the seconds that they are written from. -/

namespace Montage.Proofs.TrackTimes
open Subtitle Number DoubleValue DoubleWords DoubleOrder DecimalDigits

/-- A time of a track, and the hundredths of a second that it stands for. -/
inductive IsTime : List Char → Nat → Prop where
  | mk {hours minutes seconds rest : List Char} (hours_number : IsNumber hours) (minutes_pair : IsPair minutes)
      (minutes_less : valueOf minutes < 60) (seconds_pair : IsPair seconds) (seconds_less : valueOf seconds < 60)
      (rest_pair : IsPair rest) :
      IsTime (hours ++ ':' :: minutes ++ ':' :: seconds ++ '.' :: rest)
        (360000 * valueOf hours + 6000 * valueOf minutes + 100 * valueOf seconds + valueOf rest)

section Times

theorem digits_cut {digits other rest after : List Char} {c : Char} (all : ∀ d ∈ digits, isDigit d = true)
    (others : ∀ d ∈ other, isDigit d = true) (stops : isDigit c = false) (same : digits ++ c :: rest = other ++ c :: after) :
    digits = other ∧ rest = after := by
  have ends (front tail : List Char) (front_digits : ∀ d ∈ front, isDigit d = true) :
      (front ++ c :: tail).takeWhile isDigit = front := by
    rw [List.takeWhile_append_of_pos front_digits, List.takeWhile_cons_of_neg (by simp [stops]), List.append_nil]
  have equal : digits = other := by
    rw [← ends digits rest all, same, ends other after others]
  subst equal
  exact ⟨rfl, (List.cons.inj (List.append_cancel_left same)).2⟩

private theorem time_unique {text : List Char} {first second : Nat} (one : IsTime text first)
    (two : IsTime text second) :
    first = second := by
  obtain @⟨hours, minutes, seconds, rest, whole, minutes_pair, -, seconds_pair, -, rest_pair⟩ := one
  generalize texts : hours ++ ':' :: minutes ++ ':' :: seconds ++ '.' :: rest = text at two
  obtain @⟨hours', minutes', seconds', rest', whole', minutes_pair', -, seconds_pair', -, rest_pair'⟩ := two
  simp only [List.append_assoc, List.cons_append] at texts
  obtain ⟨same_hours, behind_hours⟩ := digits_cut whole.all whole'.all rfl texts
  obtain ⟨same_minutes, behind_minutes⟩ := digits_cut minutes_pair.all minutes_pair'.all rfl behind_hours
  obtain ⟨same_seconds, same_rest⟩ := digits_cut seconds_pair.all seconds_pair'.all rfl behind_minutes
  rw [same_hours, same_minutes, same_seconds, same_rest]

/-- A number of hundredths is written in one way. -/
theorem time_canonical {first second : List Char} {hundredths : Nat} (one : IsTime first hundredths)
    (two : IsTime second hundredths) : first = second := by
  obtain @⟨hours, minutes, seconds, rest, whole, minutes_pair, minutes_less, seconds_pair, seconds_less, rest_pair⟩ := one
  generalize total : 360000 * valueOf hours + 6000 * valueOf minutes + 100 * valueOf seconds + valueOf rest = sum at two
  obtain @⟨hours', minutes', seconds', rest', whole', minutes_pair', minutes_less', seconds_pair', seconds_less',
    rest_pair'⟩ := two
  have rest_small := pair_small rest_pair
  have rest_small' := pair_small rest_pair'
  have same_hours : hours = hours' := by
    rw [← digitsOf_valueOf whole, ← digitsOf_valueOf whole', show valueOf hours = valueOf hours' by omega]
  have same_minutes := pair_unique minutes_pair minutes_pair' (by omega)
  have same_seconds := pair_unique seconds_pair seconds_pair' (by omega)
  have same_rest := pair_unique rest_pair rest_pair' (by omega)
  rw [same_hours, same_minutes, same_seconds, same_rest]

private theorem trackTimeOf_time (total : Nat) : IsTime (trackTimeOf total) (total / 10) := by
  obtain ⟨minutes_pair, minutes⟩ := pair_padded (n := total % 3600000 / 60000) (by omega)
  obtain ⟨seconds_pair, seconds⟩ := pair_padded (n := total % 60000 / 1000) (by omega)
  obtain ⟨rest_pair, rest⟩ := pair_padded (n := total % 1000 / 10) (by omega)
  have time := IsTime.mk (number_digitsOf (total / 3600000)) minutes_pair (by omega) seconds_pair (by omega) rest_pair
  rw [JsonTokens.valueOf_digitsOf, minutes, seconds, rest] at time
  rw [show total / 10 = 360000 * (total / 3600000) + 6000 * (total % 3600000 / 60000) +
    100 * (total % 60000 / 1000) + total % 1000 / 10 by omega]
  exact time

theorem trackTime_time (seconds : Float) : IsTime (trackTime seconds).toList ((milliseconds seconds).toNat / 10) := by
  rw [trackTime, String.toList_ofList]
  exact trackTimeOf_time _

end Times

section Order

/-- What makes up for binary error. -/
theorem value_allowance : value 1e-6 = 4722366482869645 / 2 ^ 72 := by
  have encoded : value 1e-6 = (4722366482869645 : Nat) * 2 ^ (-72 : Int) := rfl
  rw [encoded, zpow_neg, div_eq_mul_inv]
  rfl

theorem value_thousand : value 1000 = 1000 :=
  value_literal (by norm_num)

private theorem milliseconds_mono {first second : Float} (ordered : first ≤ second) :
    (milliseconds first).toNat ≤ (milliseconds second).toNat := by
  by_cases positive : 0 < first
  · have above : AtMost first second := atMost_of_le positive ordered
    have other : 0 < second := above.positive positive
    rw [milliseconds, milliseconds, atLeastZero, atLeastZero, if_pos positive, if_pos other]
    exact ((above.mul rfl (by rw [value_thousand]; norm_num)).add rfl
      (by rw [value_allowance]; norm_num)).toUInt64
  · have none : milliseconds first = 0 := by
      rw [milliseconds, atLeastZero, if_neg positive]
      decide
    rw [none]
    exact Nat.zero_le _

end Order

/-- Every number of seconds, be it negative, infinite or none at all, is written as a time of a track that stands for the
hundredths in its milliseconds. Of two numbers of seconds in order the second stands for no fewer hundredths, so that a
cue that does not end before it starts does not do so in the track. -/
theorem track_times_ordered :
    (∀ seconds, IsTime (trackTime seconds).toList ((milliseconds seconds).toNat / 10)) ∧
    (∀ first second, first ≤ second → ∀ before after, IsTime (trackTime first).toList before →
      IsTime (trackTime second).toList after → before ≤ after) ∧
    ∀ cue : Cue, seconds cue.start ≤ seconds cue.stop → ∃ start stop, IsTime (trackTime (seconds cue.start)).toList start ∧
      IsTime (trackTime (seconds cue.stop)).toList stop ∧ start ≤ stop := by
  have ordered {first second : Float} (less : first ≤ second) :
      (milliseconds first).toNat / 10 ≤ (milliseconds second).toNat / 10 :=
    Nat.div_le_div_right (milliseconds_mono less)
  refine ⟨trackTime_time, fun first second less before after one two => ?_, fun cue less => ?_⟩
  · rw [time_unique one (trackTime_time first), time_unique two (trackTime_time second)]
    exact ordered less
  · exact ⟨_, _, trackTime_time _, trackTime_time _, ordered less⟩

def shortCue : Cue :=
  { start := "00:00:01,239", stop := "00:00:01.9996" }

theorem short_cue_ordered : seconds shortCue.start ≤ seconds shortCue.stop ∧
    ∃ start stop, IsTime (trackTime (seconds shortCue.start)).toList start ∧
      IsTime (trackTime (seconds shortCue.stop)).toList stop ∧ start ≤ stop := by
  have less : seconds shortCue.start ≤ seconds shortCue.stop := by decide +kernel
  exact ⟨less, track_times_ordered.2.2 shortCue less⟩

end Montage.Proofs.TrackTimes
