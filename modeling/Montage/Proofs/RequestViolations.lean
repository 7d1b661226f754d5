import Montage.Proofs.RequestNumbers
import Montage.Request.Violation

/-! What is reported of a request that was read: each rule that it breaks, at its place, and nothing else. -/

namespace Montage.Proofs.RequestViolations
open Json DoubleValue RequestNumbers

def hexDigits : List Char :=
  "0123456789abcdefABCDEF".toList

/-- A number sign and six hexadecimal digits. -/
def IsColor (text : String) : Prop :=
  ∃ digits : List Char, text.toList = '#' :: digits ∧ digits.length = 6 ∧ ∀ c ∈ digits, c ∈ hexDigits

/-- What a segment breaks: the place below it, and the kind of rule. -/
inductive SegmentBreach (segment : Segment) : String → String → Prop where
  | start (negative : segment.start < 0) : SegmentBreach segment "source_start_time" "range"
  | rate (backwards : segment.rate ≤ 0) : SegmentBreach segment "playback_rate" "range"
  | order (start : ¬segment.start < 0) (rate : ¬segment.rate ≤ 0) (empty : segment.start ≥ segment.stop) :
      SegmentBreach segment "__all__" "start_not_before_end"

inductive ClipBreach (clip : Clip) : String → String → Prop where
  | id (empty : clip.id = "") : ClipBreach clip "id" "length"
  | start (negative : clip.start < 0) : ClipBreach clip "start_time" "range"

inductive StyleBreach (style : Style) : String → String → Prop where
  | fontSize (vanishing : style.fontSize ≤ 0) : StyleBreach style "font_size" "range"
  | primaryColor (no_color : ¬IsColor style.primaryColor) : StyleBreach style "primary_color" "hex_color"
  | outlineColor (no_color : ¬IsColor style.outlineColor) : StyleBreach style "outline_color" "hex_color"
  | outlineWidth (negative : style.outlineWidth < 0) : StyleBreach style "outline_width" "range"
  | verticalMargin (outside : style.verticalMargin < 0 ∨ 100 < style.verticalMargin) :
      StyleBreach style "vertical_margin" "range"

/-- What the numbers of a region break, each by itself. -/
inductive RangeBreach (region : Region) : String → Prop where
  | x (outside : region.x < 0 ∨ 100 < region.x) : RangeBreach region "x"
  | y (outside : region.y < 0 ∨ 100 < region.y) : RangeBreach region "y"
  | width (outside : region.width < 0 ∨ 100 < region.width) : RangeBreach region "width"
  | height (outside : region.height < 0 ∨ 100 < region.height) : RangeBreach region "height"

inductive RegionBreach (region : Region) : String → String → Prop where
  | range {field : String} (outside : RangeBreach region field) : RegionBreach region field "range"
  | canvas (inside : ∀ field, ¬RangeBreach region field) (enabled : region.enabled = true)
      (outside : 100 + 1e-6 < region.x + region.width ∨ 100 + 1e-6 < region.y + region.height) :
      RegionBreach region "__all__" "outside_canvas"

/-- What a request breaks: the path, and the kind of rule. -/
inductive Breach (request : Request) : String → String → Prop where
  | source (empty : request.source = "") : Breach request "video_file_id" "length"
  | segment {index : Nat} {segment : Segment} {field code : String} (there : request.segments[index]? = some segment)
      (breach : SegmentBreach segment field code) :
      Breach request ("video_segments[" ++ toString index ++ "]." ++ field) code
  | clip {index : Nat} {clip : Clip} {field code : String} (there : request.clips[index]? = some clip)
      (breach : ClipBreach clip field code) : Breach request ("audio_files[" ++ toString index ++ "]." ++ field) code
  | style {style : Style} {field code : String} (there : request.style = some style)
      (breach : StyleBreach style field code) : Breach request ("subtitle_style." ++ field) code
  | region {region : Region} {field code : String} (there : request.region = some region)
      (breach : RegionBreach region field code) : Breach request ("hardsub_cover_box." ++ field) code

/-- What keeps all rules. -/
structure Acceptable (request : Request) : Prop where
  source : request.source ≠ ""
  segments : ∀ segment ∈ request.segments, 0 ≤ segment.start ∧ 0 < segment.rate ∧ segment.start < segment.stop
  clips : ∀ clip ∈ request.clips, clip.id ≠ "" ∧ 0 ≤ clip.start
  style : ∀ style ∈ request.style, 0 < style.fontSize ∧ IsColor style.primaryColor ∧ IsColor style.outlineColor ∧
    0 ≤ style.outlineWidth ∧ 0 ≤ style.verticalMargin ∧ style.verticalMargin ≤ 100
  region : ∀ region ∈ request.region, (0 ≤ region.x ∧ region.x ≤ 100) ∧ (0 ≤ region.y ∧ region.y ≤ 100) ∧
    (0 ≤ region.width ∧ region.width ≤ 100) ∧ (0 ≤ region.height ∧ region.height ≤ 100) ∧
    (region.enabled = true → ¬100 + 1e-6 < region.x + region.width ∧ ¬100 + 1e-6 < region.y + region.height)

def reported (violations : List Violation) : List (String × String) :=
  violations.map fun violation => (Violation.describePlace violation.place, violation.problem.code)

theorem isHexDigit_iff (c : Char) : Subtitle.isHexDigit c = true ↔ c ∈ hexDigits := by
  constructor
  · intro digit
    have ranges : (48 ≤ c.toNat ∧ c.toNat ≤ 57) ∨ (97 ≤ c.toNat ∧ c.toNat ≤ 102) ∨ (65 ≤ c.toNat ∧ c.toNat ≤ 70) := by
      simpa [Subtitle.isHexDigit, Char.le_def, UInt32.le_iff_toNat_le, or_assoc] using digit
    have listed : ∀ code < 103, (48 ≤ code ∧ code ≤ 57) ∨ (97 ≤ code ∧ code ≤ 102) ∨ (65 ≤ code ∧ code ≤ 70) →
        Char.ofNat code ∈ hexDigits := by decide
    exact Char.ofNat_toNat c ▸ listed c.toNat (by omega) ranges
  · have all : hexDigits.all Subtitle.isHexDigit = true := by decide
    exact List.all_eq_true.mp all c

theorem isColor_iff (text : String) : Subtitle.isColor text = true ↔ IsColor text := by
  unfold Subtitle.isColor IsColor
  split
  next digits same =>
    simp [same, isHexDigit_iff]
  next other =>
    simp only [Bool.false_eq_true, false_iff]
    rintro ⟨digits, same, -⟩
    exact other digits same

section Reported
variable {path code name : String}

theorem reported_append (first second : List Violation) :
    reported (first ++ second) = reported first ++ reported second :=
  List.map_append

theorem reported_one {problem : Problem} :
    (path, code) ∈ reported [.ofField name problem] ↔ path = name ∧ code = problem.code := by
  simp [reported, Violation.ofField, Violation.describePlace, Violation.describePlace.first,
    Violation.describePlace.continued]

theorem reported_nil : (path, code) ∉ reported [] :=
  List.not_mem_nil

private theorem reported_whenEmpty {value : String} :
    (path, code) ∈ reported (whenEmpty name value) ↔ value = "" ∧ path = name ∧ code = "length" := by
  unfold whenEmpty
  split
  next empty => simp [reported_one, String.isEmpty_iff.mp empty, Problem.code]
  next some_text =>
    have apart : value ≠ "" := fun empty => some_text (String.isEmpty_iff.mpr empty)
    simp [reported_nil, apart]

theorem reported_whenBroken {bounds : Bounds} {value : Float} : (path, code) ∈ reported (whenBroken name bounds value) ↔
    bounds.broken value = true ∧ path = name ∧ code = "range" := by
  unfold whenBroken
  split
  next broken => simp [reported_one, broken, Problem.code]
  next kept => simp [reported_nil, kept]

private theorem reported_whenNoColor {value : String} : (path, code) ∈ reported (whenNoColor name value) ↔
    ¬IsColor value ∧ path = name ∧ code = "hex_color" := by
  unfold whenNoColor
  rw [← isColor_iff]
  split
  next color => simp [reported_nil, color]
  next no_color => simp [reported_one, no_color, Problem.code]

/-- A record as a whole is only judged when none of its fields is reported. -/
theorem reported_fieldsThenWhole {fields : List Violation} {whole : Option Problem} :
    (path, code) ∈ reported (fieldsThenWhole fields whole) ↔ (path, code) ∈ reported fields ∨
      (∀ path code, (path, code) ∉ reported fields) ∧ ∃ problem ∈ whole, path = "__all__" ∧ code = problem.code := by
  unfold fieldsThenWhole
  cases fields with
  | nil =>
    cases whole <;>
      simp [reported, Violation.describePlace, Violation.describePlace.first, Violation.describePlace.continued]
  | cons violation rest =>
    have some_field : ¬∀ path code, (path, code) ∉ reported (violation :: rest) :=
      fun none => none _ _ List.mem_cons_self
    simp [some_field]

end Reported

section Bounds
variable {x : Float}

theorem fromZero_broken : Bounds.fromZero.broken x = true ↔ x < 0 := by
  simp [Bounds.broken, Bounds.fromZero]

private theorem aboveZero_broken (finite : x.isFinite = true) : Bounds.aboveZero.broken x = true ↔ x ≤ 0 := by
  rw [← not_lt_iff rfl finite]
  simp [Bounds.broken, Bounds.aboveZero]

private theorem percent_broken : Bounds.percent.broken x = true ↔ x < 0 ∨ 100 < x := by
  simp [Bounds.broken, Bounds.percent]

end Bounds

section Records
variable {path code : String}

private theorem segment_reported {segment : Segment} (finite : AllFinite (segmentNumbers segment)) :
    (path, code) ∈ reported segment.violations ↔ SegmentBreach segment path code := by
  obtain ⟨start, stop, rate⟩ : segment.start.isFinite = true ∧ segment.stop.isFinite = true ∧
      segment.rate.isFinite = true := by simpa [AllFinite, segmentNumbers] using finite
  simp only [Segment.violations, reported_fieldsThenWhole, reported_append, List.mem_append, reported_whenBroken,
    fromZero_broken, aboveZero_broken rate, start, stop, rate, Bool.and_self, Bool.not_true, Bool.false_eq_true,
    if_false]
  constructor
  · rintro ((⟨negative, rfl, rfl⟩ | ⟨backwards, rfl, rfl⟩) | ⟨kept, problem, judged, rfl, rfl⟩)
    · exact .start negative
    · exact .rate backwards
    · split at judged
      next empty =>
        cases judged
        exact .order (fun negative => kept _ _ (.inl ⟨negative, rfl, rfl⟩))
          (fun backwards => kept _ _ (.inr ⟨backwards, rfl, rfl⟩)) empty
      next => cases judged
  · intro breach
    cases breach with
    | start negative => exact .inl (.inl ⟨negative, rfl, rfl⟩)
    | rate backwards => exact .inl (.inr ⟨backwards, rfl, rfl⟩)
    | order start rate empty =>
      refine .inr ⟨?_, .startNotBeforeEnd, if_pos empty, rfl, rfl⟩
      rintro _ _ (⟨negative, -⟩ | ⟨backwards, -⟩)
      · exact start negative
      · exact rate backwards

private theorem clip_reported {clip : Clip} (finite : AllFinite (clipNumbers clip)) :
    (path, code) ∈ reported clip.violations ↔ ClipBreach clip path code := by
  have start : clip.start.isFinite = true := finite _ List.mem_cons_self
  have volume : clip.volume.any (fun volume => !volume.isFinite) = false := by
    cases some_volume : clip.volume with
    | none => rfl
    | some volume => simp [finite volume (by simp [clipNumbers, some_volume])]
  simp only [Clip.violations, reported_fieldsThenWhole, reported_append, List.mem_append, reported_whenEmpty,
    reported_whenBroken, fromZero_broken, start, volume, Bool.not_true, Bool.or_self, Bool.false_eq_true, if_false]
  constructor
  · rintro ((⟨empty, rfl, rfl⟩ | ⟨negative, rfl, rfl⟩) | ⟨-, problem, judged, -⟩)
    · exact .id empty
    · exact .start negative
    · cases judged
  · intro breach
    cases breach with
    | id empty => exact .inl (.inl ⟨empty, rfl, rfl⟩)
    | start negative => exact .inl (.inr ⟨negative, rfl, rfl⟩)

private theorem style_reported {style : Style} (finite : AllFinite (styleNumbers style)) :
    (path, code) ∈ reported style.violations ↔ StyleBreach style path code := by
  have size : style.fontSize.isFinite = true := finite _ List.mem_cons_self
  simp only [Style.violations, reported_append, List.mem_append, reported_whenBroken, reported_whenNoColor,
    aboveZero_broken size, fromZero_broken, percent_broken, or_assoc]
  constructor
  · rintro (⟨broken, rfl, rfl⟩ | ⟨broken, rfl, rfl⟩ | ⟨broken, rfl, rfl⟩ | ⟨broken, rfl, rfl⟩ | ⟨broken, rfl, rfl⟩)
    · exact .fontSize broken
    · exact .primaryColor broken
    · exact .outlineColor broken
    · exact .outlineWidth broken
    · exact .verticalMargin broken
  · intro breach
    cases breach with
    | fontSize broken => exact .inl ⟨broken, rfl, rfl⟩
    | primaryColor broken => exact .inr (.inl ⟨broken, rfl, rfl⟩)
    | outlineColor broken => exact .inr (.inr (.inl ⟨broken, rfl, rfl⟩))
    | outlineWidth broken => exact .inr (.inr (.inr (.inl ⟨broken, rfl, rfl⟩)))
    | verticalMargin broken => exact .inr (.inr (.inr (.inr ⟨broken, rfl, rfl⟩)))

/-- The numbers of a region are reported one by one. -/
private theorem range_reported {region : Region} : (path, code) ∈ reported
    (whenBroken "x" .percent region.x ++ whenBroken "y" .percent region.y ++ whenBroken "width" .percent region.width ++
      whenBroken "height" .percent region.height) ↔ RangeBreach region path ∧ code = "range" := by
  simp only [reported_append, List.mem_append, reported_whenBroken, percent_broken, or_assoc]
  constructor
  · rintro (⟨broken, rfl, rfl⟩ | ⟨broken, rfl, rfl⟩ | ⟨broken, rfl, rfl⟩ | ⟨broken, rfl, rfl⟩)
    · exact ⟨.x broken, rfl⟩
    · exact ⟨.y broken, rfl⟩
    · exact ⟨.width broken, rfl⟩
    · exact ⟨.height broken, rfl⟩
  · rintro ⟨breach, rfl⟩
    cases breach with
    | x broken => exact .inl ⟨broken, rfl, rfl⟩
    | y broken => exact .inr (.inl ⟨broken, rfl, rfl⟩)
    | width broken => exact .inr (.inr (.inl ⟨broken, rfl, rfl⟩))
    | height broken => exact .inr (.inr (.inr ⟨broken, rfl, rfl⟩))

private theorem region_reported {region : Region} :
    (path, code) ∈ reported region.violations ↔ RegionBreach region path code := by
  simp only [Region.violations, reported_fieldsThenWhole, range_reported]
  constructor
  · rintro (⟨outside, rfl⟩ | ⟨inside, problem, judged, rfl, rfl⟩)
    · exact .range outside
    · split at judged
      next outside =>
        cases judged
        obtain ⟨enabled, outside⟩ := Bool.and_eq_true_iff.mp outside
        exact .canvas (fun field breach => inside field "range" ⟨breach, rfl⟩) enabled
          ((Bool.or_eq_true_iff.mp outside).imp of_decide_eq_true of_decide_eq_true)
      next => cases judged
  · intro breach
    cases breach with
    | range outside => exact .inl ⟨outside, rfl⟩
    | canvas inside enabled outside =>
      have outside := Bool.or_eq_true_iff.mpr (outside.imp decide_eq_true decide_eq_true)
      exact .inr ⟨fun field _ breach => inside field breach.1, .outsideCanvas,
        if_pos (Bool.and_eq_true_iff.mpr ⟨enabled, outside⟩), rfl, rfl⟩

end Records

section Kept
variable {x : Float}

theorem not_negative (finite : x.isFinite = true) : ¬x < 0 ↔ 0 ≤ x :=
  not_lt_iff finite rfl

theorem positive_iff (finite : x.isFinite = true) : ¬x ≤ 0 ↔ 0 < x := by
  rw [← not_lt_iff rfl finite, not_not]

theorem percent_iff (finite : x.isFinite = true) : ¬(x < 0 ∨ 100 < x) ↔ 0 ≤ x ∧ x ≤ 100 := by
  rw [not_or, not_negative finite, not_lt_iff rfl finite]

private theorem segment_keeps {segment : Segment} (finite : AllFinite (segmentNumbers segment)) :
    (∀ path code, ¬SegmentBreach segment path code) ↔
      0 ≤ segment.start ∧ 0 < segment.rate ∧ segment.start < segment.stop := by
  obtain ⟨start, stop, rate⟩ : segment.start.isFinite = true ∧ segment.stop.isFinite = true ∧
      segment.rate.isFinite = true := by simpa [AllFinite, segmentNumbers] using finite
  rw [← not_negative start, ← positive_iff rate]
  constructor
  · intro none
    have kept_start : ¬segment.start < 0 := fun negative => none _ _ (.start negative)
    have kept_rate : ¬segment.rate ≤ 0 := fun backwards => none _ _ (.rate backwards)
    refine ⟨kept_start, kept_rate, ?_⟩
    by_contra empty
    exact none _ _ (.order kept_start kept_rate ((not_lt_iff start stop).mp empty))
  · rintro ⟨kept_start, kept_rate, order⟩ _ _ breach
    cases breach with
    | start negative => exact kept_start negative
    | rate backwards => exact kept_rate backwards
    | order _ _ empty => exact (not_lt_iff start stop).mpr empty order

private theorem clip_keeps {clip : Clip} (finite : AllFinite (clipNumbers clip)) :
    (∀ path code, ¬ClipBreach clip path code) ↔ clip.id ≠ "" ∧ 0 ≤ clip.start := by
  rw [← not_negative (finite _ List.mem_cons_self)]
  constructor
  · exact fun none => ⟨fun empty => none _ _ (.id empty), fun negative => none _ _ (.start negative)⟩
  · rintro ⟨some_id, start⟩ _ _ breach
    cases breach with
    | id empty => exact some_id empty
    | start negative => exact start negative

private theorem style_keeps {style : Style} (finite : AllFinite (styleNumbers style)) :
    (∀ path code, ¬StyleBreach style path code) ↔ 0 < style.fontSize ∧ IsColor style.primaryColor ∧
      IsColor style.outlineColor ∧ 0 ≤ style.outlineWidth ∧ 0 ≤ style.verticalMargin ∧ style.verticalMargin ≤ 100 := by
  obtain ⟨size, width, margin⟩ : style.fontSize.isFinite = true ∧ style.outlineWidth.isFinite = true ∧
      style.verticalMargin.isFinite = true := by simpa [AllFinite, styleNumbers] using finite
  rw [← positive_iff size, ← not_negative width, ← percent_iff margin]
  constructor
  · intro none
    refine ⟨fun broken => none _ _ (.fontSize broken), ?_, ?_, fun broken => none _ _ (.outlineWidth broken),
      fun broken => none _ _ (.verticalMargin broken)⟩
    · by_contra no_color
      exact none _ _ (.primaryColor no_color)
    · by_contra no_color
      exact none _ _ (.outlineColor no_color)
  · rintro ⟨size, primary, outline, width, margin⟩ _ _ breach
    cases breach with
    | fontSize broken => exact size broken
    | primaryColor broken => exact broken primary
    | outlineColor broken => exact broken outline
    | outlineWidth broken => exact width broken
    | verticalMargin broken => exact margin broken

private theorem region_keeps {region : Region} (finite : AllFinite (regionNumbers region)) :
    (∀ path code, ¬RegionBreach region path code) ↔ (0 ≤ region.x ∧ region.x ≤ 100) ∧
      (0 ≤ region.y ∧ region.y ≤ 100) ∧ (0 ≤ region.width ∧ region.width ≤ 100) ∧
      (0 ≤ region.height ∧ region.height ≤ 100) ∧ (region.enabled = true →
        ¬100 + 1e-6 < region.x + region.width ∧ ¬100 + 1e-6 < region.y + region.height) := by
  obtain ⟨x, y, width, height⟩ : region.x.isFinite = true ∧ region.y.isFinite = true ∧
      region.width.isFinite = true ∧ region.height.isFinite = true := by
    simpa [AllFinite, regionNumbers] using finite
  rw [← percent_iff x, ← percent_iff y, ← percent_iff width, ← percent_iff height]
  constructor
  · intro none
    have inside (field : String) : ¬RangeBreach region field := fun outside => none _ _ (.range outside)
    refine ⟨fun broken => inside _ (.x broken), fun broken => inside _ (.y broken),
      fun broken => inside _ (.width broken), fun broken => inside _ (.height broken), fun enabled => ?_⟩
    exact not_or.mp fun outside => none _ _ (.canvas inside enabled outside)
  · rintro ⟨x, y, width, height, canvas⟩ _ _ breach
    cases breach with
    | range outside =>
      cases outside with
      | x broken => exact x broken
      | y broken => exact y broken
      | width broken => exact width broken
      | height broken => exact height broken
    | canvas _ enabled outside => exact not_or.mpr (canvas enabled) outside

end Kept

/-- Whether violations speak of a field or of the whole of the record that is judged, so that a path to the record
can be put in front of them. -/
def Local (violations : List Violation) : Prop :=
  ∀ violation ∈ violations, (∃ name, violation.place = [.field name]) ∨ violation.place = [.whole]

section Nesting
variable {first second : List Violation} {name path code : String}

theorem local_append (one : Local first) (two : Local second) : Local (first ++ second) :=
  fun violation member => (List.mem_append.mp member).elim (one violation) (two violation)

theorem local_when {condition : Prop} [Decidable condition] {problem : Problem} :
    Local (if condition then [.ofField name problem] else []) := by
  intro violation member
  split at member
  · exact .inl ⟨name, congrArg Violation.place (List.mem_singleton.mp member)⟩
  · cases member

private theorem local_whenNoColor {value : String} : Local (whenNoColor name value) := by
  intro violation member
  unfold whenNoColor at member
  split at member
  · cases member
  · exact .inl ⟨name, congrArg Violation.place (List.mem_singleton.mp member)⟩

theorem local_fieldsThenWhole {whole : Option Problem} (fields : Local first) : Local (fieldsThenWhole first whole) := by
  intro violation member
  unfold fieldsThenWhole at member
  split at member
  · obtain ⟨problem, -, rfl⟩ := List.mem_map.mp member
    exact .inr rfl
  · exact fields violation member

private theorem segment_local (segment : Segment) : Local segment.violations :=
  local_fieldsThenWhole (local_append local_when local_when)

private theorem clip_local (clip : Clip) : Local clip.violations :=
  local_fieldsThenWhole (local_append local_when local_when)

private theorem style_local (style : Style) : Local style.violations :=
  local_append (local_append (local_append (local_append local_when local_whenNoColor) local_whenNoColor) local_when)
    local_when

private theorem region_local (region : Region) : Local region.violations :=
  local_fieldsThenWhole (local_append (local_append (local_append local_when local_when) local_when) local_when)

private theorem continued_append (outer rest : List Place) : Violation.describePlace.continued (outer ++ rest) =
    Violation.describePlace.continued outer ++ Violation.describePlace.continued rest := by
  induction outer with
  | nil => rw [List.nil_append, Violation.describePlace.continued, String.empty_append]
  | cons place others ih =>
    cases place <;> simp only [List.cons_append, Violation.describePlace.continued, ih, String.append_assoc]

/-- The path of a violation below a part of a request. -/
private theorem reported_under {violations : List Violation} (locals : Local violations) (outer : List Place) :
    (path, code) ∈ reported (violations.map (.under (.field name :: outer))) ↔ ∃ field,
      (field, code) ∈ reported violations ∧ path = name ++ Violation.describePlace.continued outer ++ ("." ++ field) := by
  have placed : ∀ violation ∈ violations, Violation.describePlace (.field name :: outer ++ violation.place) =
      name ++ Violation.describePlace.continued outer ++ ("." ++ Violation.describePlace violation.place) := by
    intro violation member
    obtain ⟨field, place⟩ | place := locals violation member <;>
      simp only [place, List.cons_append, Violation.describePlace, Violation.describePlace.first, continued_append,
        Violation.describePlace.continued, String.append_assoc]
  simp only [reported, List.map_map, List.mem_map, Function.comp_apply, Prod.mk.injEq]
  constructor
  · rintro ⟨violation, member, rfl, rfl⟩
    exact ⟨_, ⟨violation, member, rfl, rfl⟩, placed violation member⟩
  · rintro ⟨_, ⟨violation, member, rfl, rfl⟩, rfl⟩
    exact ⟨violation, member, placed violation member, rfl⟩

private theorem reported_violationsOf {judge : α → List Violation} (locals : ∀ item, Local (judge item))
    {items : List α} :
    (path, code) ∈ reported (violationsOf name judge items) ↔ ∃ (index : Nat) (item : α) (field : String),
      items[index]? = some item ∧ (field, code) ∈ reported (judge item) ∧
        path = name ++ "[" ++ toString index ++ "]." ++ field := by
  have each (index : Nat) (item : α) : (path, code) ∈ reported ((judge item).map (.under [.field name, .item index])) ↔
      ∃ field, (field, code) ∈ reported (judge item) ∧ path = name ++ "[" ++ toString index ++ "]." ++ field := by
    have joint (field : String) : "]" ++ ("." ++ field) = "]." ++ field := String.append_assoc.symm
    simp only [reported_under (locals item), Violation.describePlace.continued, String.append_assoc,
      String.empty_append, joint]
  have found : (path, code) ∈ reported (violationsOf name judge items) ↔ ∃ (index : Nat) (bound : index < items.length),
      (path, code) ∈ reported ((judge items[index]).map (.under [.field name, .item index])) := by
    simp only [violationsOf, reported, List.map_flatten, List.mem_flatten]
    constructor
    · rintro ⟨_, part, member⟩
      obtain ⟨_, judged, rfl⟩ := List.mem_map.mp part
      obtain ⟨index, bound, rfl⟩ := List.mem_mapIdx.mp judged
      exact ⟨index, bound, member⟩
    · rintro ⟨index, bound, member⟩
      exact ⟨_, List.mem_map.mpr ⟨_, List.mem_mapIdx.mpr ⟨index, bound, rfl⟩, rfl⟩, member⟩
  rw [found]
  constructor
  · rintro ⟨index, bound, member⟩
    obtain ⟨field, inner, rfl⟩ := (each index items[index]).mp member
    exact ⟨index, items[index], field, List.getElem?_eq_getElem bound, inner, rfl⟩
  · rintro ⟨index, item, field, there, inner, rfl⟩
    obtain ⟨bound, rfl⟩ := List.getElem?_eq_some_iff.mp there
    exact ⟨index, bound, (each index items[index]).mpr ⟨field, inner, rfl⟩⟩

private theorem reported_violationsIn {judge : α → List Violation} (locals : ∀ value, Local (judge value))
    {part : Option α} :
    (path, code) ∈ reported (violationsIn name judge part) ↔ ∃ value field, part = some value ∧
      (field, code) ∈ reported (judge value) ∧ path = name ++ "." ++ field := by
  cases part with
  | none => simp [violationsIn, reported]
  | some value =>
    have whole : violationsIn name judge (some value) = (judge value).map (.under [.field name]) := by
      simp [violationsIn]
    rw [whole, reported_under (locals value)]
    simp [Violation.describePlace.continued, String.append_assoc]

end Nesting

section Reading
variable {request : Request} (finite : AllFinite (numbers request))
include finite

theorem segments_finite {segment : Segment} (held : segment ∈ request.segments) : AllFinite (segmentNumbers segment) :=
  fun number among => finite number (by simp only [numbers, List.mem_append, List.mem_flatMap]; grind)

theorem clips_finite {clip : Clip} (held : clip ∈ request.clips) : AllFinite (clipNumbers clip) :=
  fun number among => finite number (by simp only [numbers, List.mem_append, List.mem_flatMap]; grind)

theorem style_finite {style : Style} (held : request.style = some style) : AllFinite (styleNumbers style) :=
  fun number among => finite number (by simp only [numbers, held, List.mem_append, List.mem_flatMap]; grind)

/-- What is reported of a request with finite numbers is what it breaks. -/
theorem reported_iff {path code : String} :
    (path, code) ∈ reported request.violations ↔ Breach request path code := by
  have volume : request.masterVolume.isFinite = true := finite _ (by simp [numbers])
  simp only [Request.violations, volume, if_true, List.append_nil, reported_append, List.mem_append,
    reported_whenEmpty, reported_violationsOf segment_local, reported_violationsOf clip_local,
    reported_violationsIn style_local, reported_violationsIn region_local, or_assoc]
  constructor
  · rintro (⟨empty, rfl, rfl⟩ | ⟨index, segment, field, there, broken, rfl⟩ | ⟨index, clip, field, there, broken, rfl⟩ |
      ⟨style, field, there, broken, rfl⟩ | ⟨region, field, there, broken, rfl⟩)
    · exact .source empty
    · exact .segment there ((segment_reported (segments_finite finite (List.mem_of_getElem? there))).mp broken)
    · exact .clip there ((clip_reported (clips_finite finite (List.mem_of_getElem? there))).mp broken)
    · exact .style there ((style_reported (style_finite finite there)).mp broken)
    · exact .region there (region_reported.mp broken)
  · intro breach
    cases breach with
    | source empty => exact .inl ⟨empty, rfl, rfl⟩
    | segment there broken =>
      have judged := (segment_reported (segments_finite finite (List.mem_of_getElem? there))).mpr broken
      exact .inr (.inl ⟨_, _, _, there, judged, rfl⟩)
    | clip there broken =>
      have judged := (clip_reported (clips_finite finite (List.mem_of_getElem? there))).mpr broken
      exact .inr (.inr (.inl ⟨_, _, _, there, judged, rfl⟩))
    | style there broken =>
      have judged := (style_reported (style_finite finite there)).mpr broken
      exact .inr (.inr (.inr (.inl ⟨_, _, there, judged, rfl⟩)))
    | region there broken =>
      exact .inr (.inr (.inr (.inr ⟨_, _, there, region_reported.mpr broken, rfl⟩)))

private theorem region_finite {region : Region} (held : request.region = some region) :
    AllFinite (regionNumbers region) :=
  fun number among => finite number (by simp only [numbers, held, List.mem_append, List.mem_flatMap]; grind)

theorem acceptable_iff : (∀ path code, ¬Breach request path code) ↔ Acceptable request := by
  constructor
  · intro none
    refine ⟨fun empty => none _ _ (.source empty), ?_, ?_, ?_, ?_⟩
    · intro segment held
      obtain ⟨index, there⟩ := List.getElem?_of_mem held
      exact (segment_keeps (segments_finite finite held)).mp fun _ _ broken => none _ _ (.segment there broken)
    · intro clip held
      obtain ⟨index, there⟩ := List.getElem?_of_mem held
      exact (clip_keeps (clips_finite finite held)).mp fun _ _ broken => none _ _ (.clip there broken)
    · intro style held
      exact (style_keeps (style_finite finite held)).mp fun _ _ broken => none _ _ (.style held broken)
    · intro region held
      exact (region_keeps (region_finite finite held)).mp fun _ _ broken => none _ _ (.region held broken)
  · intro kept _ _ breach
    cases breach with
    | source empty => exact kept.source empty
    | segment there broken =>
      have held := List.mem_of_getElem? there
      exact (segment_keeps (segments_finite finite held)).mpr (kept.segments _ held) _ _ broken
    | clip there broken =>
      have held := List.mem_of_getElem? there
      exact (clip_keeps (clips_finite finite held)).mpr (kept.clips _ held) _ _ broken
    | style there broken => exact (style_keeps (style_finite finite there)).mpr (kept.style _ there) _ _ broken
    | region there broken => exact (region_keeps (region_finite finite there)).mpr (kept.region _ there) _ _ broken

theorem accepted_iff : request.violations = [] ↔ Acceptable request := by
  rw [← acceptable_iff finite, ← List.map_eq_nil_iff, List.eq_nil_iff_forall_not_mem]
  constructor
  · exact fun none path code breach => none _ ((reported_iff finite).mpr breach)
  · exact fun none ⟨path, code⟩ member => none path code ((reported_iff finite).mp member)

end Reading

/-- A request that was read is reported for what it breaks and for nothing else, and it is accepted just when it
keeps all rules. -/
theorem violations_exact {json : Json} {request : Request} (read : Request.read json = .ok request) :
    (∀ path code, (path, code) ∈ reported request.violations ↔ Breach request path code) ∧
      (request.violations = [] ↔ Acceptable request) := by
  have finite := request_finite json request read
  exact ⟨fun _ _ => reported_iff finite, accepted_iff finite⟩

def backwardSegment : Json :=
  .ofMembers [("video_file_id", .ofText "film"),
    ("video_segments", .list [.ofMembers [("sourceStart", .ofNat 5), ("sourceEnd", .ofNat 2)]] true)]

theorem backward_segment_exact : ∃ request, Request.read backwardSegment = .ok request ∧
    ("video_segments[0].__all__", "start_not_before_end") ∈ reported request.violations ∧ ¬Acceptable request := by
  have read : Request.read backwardSegment = .ok { source := "film", segments := [{ start := 5, stop := 2 }] } := rfl
  have breach := @Breach.segment { source := "film", segments := [{ start := 5, stop := 2 }] } 0 _ _ _ rfl
    (.order (by decide) (by decide) (by decide))
  have there := ((violations_exact read).1 _ _).mpr breach
  exact ⟨_, read, there, fun kept => List.ne_nil_of_mem there (congrArg reported ((violations_exact read).2.mpr kept))⟩

end Montage.Proofs.RequestViolations
