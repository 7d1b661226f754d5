import Montage.Proofs.DoubleWords
import Montage.Proofs.FilterContents
import Montage.Proofs.JsonTokens
import Montage.Proofs.PowerBounds
import Montage.Proofs.RequestViolations
import Montage.Proofs.TempoFactors

/-! The doubles in compiled filters. All that come from the segments of an accepted request are finite and written as
decimal numerals; the gain of a level is written as one too, unless the level is so high that its gain is beyond the
largest double. -/

namespace Montage.Proofs.FilterNumbers
open Montage.Filter Number FilterContents DoubleValue DoubleRounding DoubleArithmetic DoubleWords PowerBounds RequestNumbers
  RequestViolations

/-- A decimal numeral: digits, which a sign may precede and one point may divide. -/
def IsNumeral (text : List Char) : Prop :=
  ∃ negative whole fraction, text = signOf negative ++ whole ++ (if fraction.isEmpty then [] else '.' :: fraction) ∧
    whole ≠ [] ∧ (∀ c ∈ whole, isDigit c = true) ∧ ∀ c ∈ fraction, isDigit c = true

section Numerals

theorem numeral_digits (negative : Bool) {digits : List Char} (some_digit : digits ≠ [])
    (all : ∀ c ∈ digits, isDigit c = true) : IsNumeral (signOf negative ++ digits) :=
  ⟨negative, digits, [], by simp, some_digit, all, nofun⟩

private theorem numeral_withPlaces (negative : Bool) (places : Nat) {digits : List Char} (some_digit : digits ≠ [])
    (all : ∀ c ∈ digits, isDigit c = true) : IsNumeral (signOf negative ++ withPlaces places digits) := by
  unfold withPlaces
  split
  · exact numeral_digits negative some_digit all
  next some_place =>
    have filled_digits : ∀ c ∈ List.replicate (places + 1 - digits.length) '0' ++ digits, isDigit c = true := by
      intro c member
      obtain zero | digit := List.mem_append.mp member
      · exact List.eq_of_mem_replicate zero ▸ rfl
      · exact all c digit
    have long : places + 1 ≤ (List.replicate (places + 1 - digits.length) '0' ++ digits).length := by
      rw [List.length_append, List.length_replicate]
      omega
    generalize List.replicate (places + 1 - digits.length) '0' ++ digits = filled at filled_digits long
    have fraction : (filled.drop (filled.length - places)).isEmpty = false := by
      rw [List.isEmpty_eq_false_iff, ← List.length_pos_iff, List.length_drop]
      omega
    refine ⟨negative, filled.take (filled.length - places), filled.drop (filled.length - places), ?_, ?_, ?_, ?_⟩
    · rw [fraction, if_neg Bool.false_ne_true, List.append_assoc]
    · rw [← List.length_pos_iff, List.length_take]
      omega
    · exact fun c member => filled_digits c (List.mem_of_mem_take member)
    · exact fun c member => filled_digits c (List.mem_of_mem_drop member)

variable {x : Float} (finite : x.isFinite = true)
include finite

private theorem plain_numeral : IsNumeral (plain x) := by
  obtain ⟨negative, mantissa, exponent, number, -⟩ := meaning_value finite
  rw [plain, number]
  simp only [Decimal.plain]
  split
  · exact numeral_digits negative (List.cons_ne_nil _ _) fun c member => List.mem_singleton.mp member ▸ rfl
  · split
    next zeros _ =>
      refine numeral_digits negative (List.append_ne_nil_of_left_ne_nil Nat.toDigits_ne_nil _) fun c member => ?_
      obtain digit | zero := List.mem_append.mp member
      · exact JsonTokens.digitsOf_digits c digit
      · exact List.eq_of_mem_replicate zero ▸ rfl
    next places _ => exact numeral_withPlaces negative _ Nat.toDigits_ne_nil JsonTokens.digitsOf_digits

private theorem fixed_numeral (places : Nat) : IsNumeral (fixed places x) := by
  obtain ⟨negative, mantissa, exponent, number, -⟩ := meaning_value finite
  rw [fixed, number]
  exact numeral_withPlaces negative places Nat.toDigits_ne_nil JsonTokens.digitsOf_digits

end Numerals

section Gain

private theorem fixed_infinite {x : Float} (infinite : x.toModel.unpack = .infinity .positive) (places : Nat) :
    fixed places x = "inf".toList := by
  have meant : meaning x = .infinite false := by rw [meaning, infinite]
  rw [fixed, meant]
  rfl

private theorem infinite_unbounded {x : Float} (infinite : x.toModel.unpack = .infinity .positive) :
    ¬x.isFinite = true := by
  intro finite
  change x.toModel.unpack.isFinite = true at finite
  rw [infinite] at finite
  cases finite

/-- Whether a text is what is written of the gain of a level: a numeral, or `inf` where the gain is beyond the largest
double. From 6180 decibels on it is always the latter, and never up to 6160. -/
def GainText (level : Float) (text : String) : Prop :=
  IsNumeral text.toList ∧ level < 6180 ∨ text = "inf" ∧ 6160 < level

theorem value_twenty : value 20 = 20 :=
  value_literal (by norm_num)

private theorem value_low : value 6160 = 6160 :=
  value_literal (by norm_num)

private theorem value_high : value 6180 = 6180 :=
  value_literal (by norm_num)

private theorem gain_text {level : Float} (finite : level.isFinite = true) :
    GainText level (gainText (linearGain level)) := by
  unfold linearGain
  split
  next zero =>
    refine .inl ⟨by rw [gainText, String.toList_ofList]; exact fixed_numeral rfl 6, ?_⟩
    rw [lt_iff finite rfl, value_high, (beq_iff finite rfl).mp zero]
    change (0 : ℚ) < 6180
    norm_num
  next =>
    obtain ⟨quotient_finite, bounds⟩ := @div_bounded level 20 finite rfl (by rw [value_twenty]; norm_num)
      (by rw [value_twenty]; norm_num)
    rw [value_twenty] at bounds
    obtain gain_finite | infinite := tenToThe_outcome quotient_finite
    · refine .inl ⟨by rw [gainText, String.toList_ofList]; exact fixed_numeral gain_finite 6, ?_⟩
      by_contra loud
      rw [not_lt_iff finite rfl, le_iff rfl finite, value_high] at loud
      have canonical : Canonical (309 * 2 ^ 44) (-44) := ⟨by norm_num, by norm_num, .inl (by norm_num)⟩
      have large := (bounds _ _ canonical).2 (by norm_num; linarith)
      exact infinite_unbounded (tenToThe_infinite quotient_finite (by norm_num at large; linarith)) gain_finite
    · refine .inr ⟨by rw [gainText, fixed_infinite infinite]; rfl, ?_⟩
      by_contra quiet
      rw [not_lt_iff rfl finite, le_iff finite rfl, value_low] at quiet
      have canonical : Canonical (308 * 2 ^ 44) (-44) := ⟨by norm_num, by norm_num, .inl (by norm_num)⟩
      have small := (bounds _ _ canonical).1 (by norm_num; linarith)
      exact infinite_unbounded infinite (tenToThe_finite quotient_finite (by norm_num at small; linarith))

end Gain

def levels (request : Request) : List Float :=
  request.masterVolume :: request.clips.filterMap (·.volume)

/-- What the text of a filter may be, so that each double in it is a numeral, but for the gain of a high level. -/
inductive Legible (levels : List Float) : String → Prop where
  | trim {start stop : String} (first : IsNumeral start.toList) (last : IsNumeral stop.toList) :
      Legible levels ("trim=start=" ++ start ++ ":end=" ++ stop)
  | retime {rate : String} (numeral : IsNumeral rate.toList) : Legible levels ("setpts=(PTS-STARTPTS)/" ++ rate)
  | trimSound {start stop : String} (first : IsNumeral start.toList) (last : IsNumeral stop.toList) :
      Legible levels ("atrim=start=" ++ start ++ ":end=" ++ stop)
  | tempo {factor : String} (numeral : IsNumeral factor.toList) : Legible levels ("atempo=" ++ factor)
  | volume {level : Float} {gain : String} (asked : level ∈ levels) (text : GainText level gain) :
      Legible levels ("volume=" ++ gain)
  | fixed {filter : Filter} (fixed : isFixed filter = true) : Legible levels filter.text

theorem numberText_numeral {x : Float} (finite : x.isFinite = true) : IsNumeral (Filter.numberText x).toList := by
  rw [Filter.numberText, String.toList_ofList]
  exact plain_numeral finite

section Request
variable {request : Request} (finite : AllFinite (numbers request)) (acceptable : Acceptable request)
include finite acceptable

private theorem segment_numbers {segment : Segment} (held : segment ∈ request.segments) :
    segment.start.isFinite = true ∧
    segment.stop.isFinite = true ∧ segment.rate.isFinite = true ∧ 0 < value segment.rate := by
  obtain ⟨start, stop, rate⟩ : segment.start.isFinite = true ∧ segment.stop.isFinite = true ∧
      segment.rate.isFinite = true := by
    simpa [AllFinite, segmentNumbers] using segments_finite finite held
  exact ⟨start, stop, rate, (lt_iff rfl rate).mp (acceptable.segments segment held).2.1⟩

/-- The rates of an accepted request can be split. -/
theorem request_ends (subtitles : Option String) (hasSound : Bool) :
    ¬FilterIntent.Endless (Plan.ofRequest request subtitles hasSound) := by
  rintro ⟨-, segment, held, unsplit⟩
  obtain ⟨-, -, rate, forward⟩ := segment_numbers finite acceptable held
  obtain ⟨steps, ends⟩ := TempoFactors.tempoSteps_ends rate forward
  rw [TempoFactors.tempoSteps_none.mpr unsplit] at ends
  cases ends

private theorem segment_legible {segment : Segment} (held : segment ∈ request.segments) {filter : Filter}
    (cuts : filter ∈ pictureFilters segment ++ soundFilters segment) : Legible (levels request) filter.text := by
  obtain ⟨start, stop, rate, forward⟩ := segment_numbers finite acceptable held
  obtain ⟨steps, ends⟩ := TempoFactors.tempoSteps_ends rate forward
  simp only [pictureFilters, soundFilters, ends, Option.getD_some, List.mem_append, List.mem_cons, List.not_mem_nil,
    or_false, List.mem_map] at cuts
  obtain (rfl | rfl) | (rfl | rfl) | ⟨step, taken, rfl⟩ := cuts
  · exact .trim (numberText_numeral start) (numberText_numeral stop)
  · exact .retime (numberText_numeral rate)
  · exact .trimSound (numberText_numeral start) (numberText_numeral stop)
  · exact .fixed rfl
  · have splits := TempoFactors.splits_within ends
    exact .tempo (numberText_numeral ((TempoFactors.splits_shape splits rate forward).2 step taken))

private theorem origin_legible {subtitles : Option String} {hasSound : Bool} {filter : Filter}
    (origin : Origin (Plan.ofRequest request subtitles hasSound) filter) : Legible (levels request) filter.text := by
  cases origin with
  | picture held cuts => exact segment_legible finite acceptable held (List.mem_append_left _ cuts)
  | sound held cuts => exact segment_legible finite acceptable held (List.mem_append_right _ cuts)
  | @clip clip _ held treats =>
    have held : clip ∈ request.clips := held
    obtain volume | delay := List.mem_append.mp treats
    · obtain ⟨level, asked, rfl⟩ := List.mem_map.mp volume
      have loud : clip.volume = some level := (Option.filter_eq_some_iff.mp (Option.mem_toList.mp asked)).1
      have level_finite := clips_finite finite held level (by simp [clipNumbers, loud])
      exact .volume (List.mem_cons_of_mem _ (List.mem_filterMap.mpr ⟨clip, held, loud⟩)) (gain_text level_finite)
    · rw [List.mem_singleton.mp delay]
      exact .fixed rfl
  | master _ => exact .volume List.mem_cons_self (gain_text (finite _ (by simp [numbers])))
  | fixed fixed => exact .fixed fixed

end Request

/-- A request that was read and accepted is compiled, and each double in the text of its filters is a numeral, but
for the gain of a level above 6160 decibels, which may be `inf`. -/
theorem graph_legible {json : Json} {request : Request} (read : Request.read json = .ok request)
    (accepted : request.violations = []) (subtitles : Option String) (hasSound : Bool) (canvas : Canvas) :
    ∃ compiled, (Plan.ofRequest request subtitles hasSound).compile canvas = some (.ok compiled) ∧
      ∀ filter ∈ filtersOf compiled, Legible (levels request) filter.text := by
  have finite := request_finite json request read
  have kept := (accepted_iff finite).mp accepted
  have compiles := FilterCompile.compile_eq (request_ends finite kept subtitles hasSound) canvas
  exact ⟨_, compiles, fun filter member => origin_legible finite kept (compile_origin _ canvas filter member)⟩

def loudMix : Json :=
  .ofMembers [("video_file_id", .ofText "film"), ("master_volume_db", .ofNat 10000)]

theorem loud_mix_legible : ∃ request compiled, Request.read loudMix = .ok request ∧ request.violations = [] ∧
    (Plan.ofRequest request none true).compile {} = some (.ok compiled) ∧
      ∀ filter ∈ filtersOf compiled, Legible [10000] filter.text := by
  have read : Request.read loudMix = .ok { source := "film", masterVolume := 10000 } := rfl
  obtain ⟨compiled, compiles, legible⟩ := graph_legible read rfl none true {}
  exact ⟨_, compiled, read, rfl, compiles, legible⟩

theorem loud_mix_infinite : ∃ request compiled, Request.read loudMix = .ok request ∧ request.violations = [] ∧
    (Plan.ofRequest request none true).compile {} = some (.ok compiled) ∧
      (∃ filter ∈ filtersOf compiled, filter.text = "volume=inf") ∧ ¬IsNumeral "inf".toList := by
  refine ⟨{ source := "film", masterVolume := 10000 }, _, rfl, rfl, rfl, ⟨.volume (1 / 0), ?_, ?_⟩, ?_⟩
  · decide
  · decide
  · rintro ⟨negative, whole, fraction, reads, some_digit, digits, -⟩
    cases negative with
    | true => cases reads
    | false =>
      cases whole with
      | nil => exact some_digit rfl
      | cons first rest =>
        injection reads with first_is
        exact absurd (first_is ▸ digits first List.mem_cons_self) (by decide)

end Montage.Proofs.FilterNumbers
