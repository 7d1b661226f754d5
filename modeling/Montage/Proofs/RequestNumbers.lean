import Montage.Proofs.DoubleValue
import Montage.Proofs.JsonRecords
import Montage.Request.Format

/-! The numbers of a request. JSON has no numerals for infinities and none for what is no number, and a numeral
beyond the largest double is refused, so that all numbers of a request that was read are finite. -/

namespace Montage.Proofs.RequestNumbers
open Json JsonRecords

def segmentNumbers (segment : Segment) : List Float :=
  [segment.start, segment.stop, segment.rate]

def clipNumbers (clip : Clip) : List Float :=
  clip.start :: clip.volume.toList

def styleNumbers (style : Style) : List Float :=
  [style.fontSize, style.outlineWidth, style.verticalMargin]

def regionNumbers (region : Region) : List Float :=
  [region.x, region.y, region.width, region.height]

def numbers (request : Request) : List Float :=
  request.segments.flatMap segmentNumbers ++ request.clips.flatMap clipNumbers ++
    request.style.toList.flatMap styleNumbers ++ request.region.toList.flatMap regionNumbers ++ [request.masterVolume]

def AllFinite (numbers : List Float) : Prop :=
  ∀ number ∈ numbers, number.isFinite = true

private theorem segment_finite : Yields (fun segment => AllFinite (segmentNumbers segment)) Segment.read := by
  apply yields_record
  refine builds_seq (builds_seq (builds_map (builds_required yields_double) ?_) (builds_required yields_double))
    (builds_defaulting yields_double rfl)
  intro start start_finite stop stop_finite rate rate_finite
  simp [AllFinite, segmentNumbers, start_finite, stop_finite, rate_finite]

private theorem clip_finite : Yields (fun clip => AllFinite (clipNumbers clip)) Clip.read := by
  apply yields_record
  refine builds_seq (builds_seq (builds_seq (builds_map (builds_required (yields_any _)) ?_)
    (builds_defaulting yields_double rfl)) (builds_defaulting (yields_optional yields_double) nofun))
    (builds_defaulting (yields_any _) trivial)
  intro id _ start start_finite volume volume_finite track _
  simpa [AllFinite, clipNumbers, start_finite] using volume_finite

theorem style_finite : Yields (fun style => AllFinite (styleNumbers style)) Style.read := by
  apply yields_record
  refine builds_seq (builds_seq (builds_seq (builds_seq (builds_seq (builds_seq
    (builds_map (builds_defaulting (yields_any _) trivial) ?_)
    (builds_defaulting yields_double rfl)) (builds_defaulting (yields_any _) trivial))
    (builds_defaulting (yields_any _) trivial)) (builds_defaulting yields_double rfl))
    (builds_defaulting yields_double rfl)) (builds_defaulting (yields_any _) trivial)
  intro font _ size size_finite primary _ outline _ width width_finite margin margin_finite alignment _
  simp [AllFinite, styleNumbers, size_finite, width_finite, margin_finite]

theorem region_finite : Yields (fun region => AllFinite (regionNumbers region)) Region.read := by
  apply yields_record
  refine builds_seq (builds_seq (builds_seq (builds_seq
    (builds_map (builds_defaulting yields_double rfl) ?_) (builds_defaulting yields_double rfl))
    (builds_defaulting yields_double rfl)) (builds_defaulting yields_double rfl))
    (builds_defaulting (yields_any _) trivial)
  intro x x_finite y y_finite width width_finite height height_finite enabled _
  simp [AllFinite, regionNumbers, x_finite, y_finite, width_finite, height_finite]

/-- The numbers of a request that was read are finite. -/
theorem request_finite : Yields (fun request => AllFinite (numbers request)) Request.read := by
  apply yields_record
  refine builds_seq (builds_seq (builds_seq (builds_seq (builds_seq (builds_seq (builds_seq (builds_seq
    (builds_map (builds_required (yields_any _)) ?_)
    (builds_defaulting (yields_list segment_finite) nofun)) (builds_defaulting (yields_any _) trivial))
    (builds_defaulting (yields_list clip_finite) nofun)) (builds_defaulting (yields_optional style_finite) nofun))
    (builds_defaulting (yields_optional region_finite) nofun)) (builds_defaulting yields_double rfl))
    (builds_defaulting (yields_any _) trivial)) (builds_defaulting (yields_any _) trivial)
  intro source _ segments segments_finite cues _ clips clips_finite style style_finite region region_finite
    volume volume_finite frame _ name _ number member
  simp only [numbers, List.mem_append, List.mem_flatMap, Option.mem_toList, List.mem_singleton] at member
  obtain (((⟨segment, held, among⟩ | ⟨clip, held, among⟩) | ⟨style, held, among⟩) | ⟨region, held, among⟩) | rfl := member
  · exact segments_finite segment held number among
  · exact clips_finite clip held number among
  · exact style_finite style held number among
  · exact region_finite region held number among
  · exact volume_finite

end Montage.Proofs.RequestNumbers
