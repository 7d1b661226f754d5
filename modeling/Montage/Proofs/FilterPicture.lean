import Montage.Proofs.FilterStages

/-! The picture of a compiled plan: each stage reads the picture before it and leaves what the plan
asks for, with labels from one list. -/

namespace Montage.Proofs.FilterPicture
open Montage.Filter FilterEffects FilterAmounts FilterWiring FilterIntent FilterStages

variable {inputCount : Nat}

/-- A picture so far leaves a signal under its label, and its labels are from a list. -/
structure Shows (inputCount : Nat) (picture : Picture) (signal : Signal) (labels : List String) : Prop where
  yields : Yields inputCount picture.nodes picture.label signal
  bounded : (written picture.nodes).Sublist labels

theorem Shows.widen {picture : Picture} {signal : Signal} {labels : List String}
    (shows : Shows inputCount picture signal labels) (more : List String) :
    Shows inputCount picture signal (labels ++ more) :=
  ⟨shows.yields, shows.bounded.trans (List.sublist_append_left ..)⟩

/-- A stage adds nodes, the last of which takes all signals that are left. -/
theorem Shows.extend {picture : Picture} {signal : Signal} {labels : List String}
    (shows : Shows inputCount picture signal labels) {front : List Node} {middle : Scope}
    (steps : Runs inputCount [(picture.label, signal)] front middle) {inputs : List Pad}
    {sources : List Signal} (takes : Takes inputCount middle inputs sources []) {filters : List Filter}
    {outputs : Nat → Signal} (works : through filters sources = some outputs) (label : String) :
    Shows inputCount ⟨picture.nodes ++ (front ++ [⟨inputs, filters, [label]⟩]), label⟩ (outputs 0)
      (labels ++ (written front ++ [label])) := by
  constructor
  · rw [← List.append_assoc]
    exact Yields.of_takes (shows.yields.runs.append steps) takes works label
  · simp only [written_append]
    exact shows.bounded.append (List.Sublist.refl _)

private theorem assembled_shows (plan : Plan) (canvas : Canvas) (source : 0 < inputCount) :
    Shows inputCount (Picture.assembled plan canvas)
      (onCanvas canvas (combined (.join · 1 0) (.input 0 .video) (plan.segments.map pictureStretch)))
      (FilterLabels.segmentLabels plan.segments.length .video ++ ["vcat", "vnorm"]) := by
  obtain ⟨scope, first, takes, labels⟩ := segments_take plan.segments .video pictureFilters source
    (by simp [pictureFilters]) (by simp [pictureFilters, Composed, isComposed])
  obtain ⟨middle, joins, only⟩ := joined_takes source takes .joinVideo (fun _ => rfl) "vcat" .video
  constructor
  · exact Yields.of_chain (first.append joins) only (by simp [normalization])
      (by simp [normalization, Composed, isComposed]) "vnorm"
  · have join := written_joined (segmentPads plan.segments .video) .joinVideo "vcat" .video
    simp only [Picture.assembled, written_append, labels, List.append_assoc]
    exact (List.Sublist.refl _).append (join.append (List.Sublist.refl ["vnorm"]))

/-- What is cut out of a picture for a box, blurred, and laid back. -/
def patched (box : Box) (picture : Signal) : Signal :=
  .filtered (.lay box.x box.y)
    [.filtered (.copies 2) [picture] 0,
      .chain [.crop box.width box.height box.x box.y, .blur 20 3] (.filtered (.copies 2) [picture] 1)] 0

private theorem blurred_shows {picture : Picture} {signal : Signal} {labels : List String}
    (shows : Shows inputCount picture signal labels) (box : Box) :
    Shows inputCount (Picture.blurred box picture) (patched box signal)
      (labels ++ ["vbase", "vblursrc", "vblurred", "vblur"]) := by
  have split : Takes inputCount [(picture.label, signal)] [.label picture.label] [signal] [] :=
    takes_only ..
  obtain ⟨outputs, blurs, blurred⟩ := through_chain (by simp : [Filter.crop box, .blur] ≠ [])
    (by simp [Composed, isComposed]) (.filtered (.copies 2) [signal] 1)
  have copies : Runs inputCount [(picture.label, signal)]
      [⟨[.label picture.label], [.split], ["vbase", "vblursrc"]⟩,
        .chain (.label "vblursrc") [.crop box, .blur] "vblurred"]
      [("vblurred", outputs 0), ("vbase", .filtered (.copies 2) [signal] 0)] :=
    .node split (through_one (by rfl) _) (.node (.label (.swap ..) (.done (.refl _))) blurs (.done (.refl _)))
  have both : Takes inputCount [("vblurred", outputs 0), ("vbase", .filtered (.copies 2) [signal] 0)]
      [.label "vbase", .label "vblurred"] [.filtered (.copies 2) [signal] 0, outputs 0] [] :=
    .label (.swap ..) (takes_only ..)
  have shown := shows.extend copies both (through_one (rfl : isComposed (.overlay box.x box.y) = true) _) "vblur"
  rw [blurred] at shown
  exact shown

private theorem overlaid_shows {picture : Picture} {signal : Signal} {labels : List String}
    (shows : Shows inputCount picture signal labels) (canvas : Canvas) (index : Nat)
    (known : index < inputCount) :
    Shows inputCount (Picture.overlaid canvas index picture)
      (.filtered (.lay 0 0)
        [signal, .chain [.scale canvas.width.toNat canvas.height.toNat] (.input index .video)] 0)
      (labels ++ ["ovlimg", "vovl"]) := by
  have image : Runs inputCount [(picture.label, signal)]
      [.chain (.input index .video) [.scale canvas.width.toNat canvas.height.toNat] "ovlimg"]
      [("ovlimg", .chain [.scale canvas.width.toNat canvas.height.toNat] (.input index .video)),
        (picture.label, signal)] :=
    .node (.input known (.done (.refl _))) (through_one (by rfl) _) (.done (.refl _))
  exact shows.extend image (.label (.swap ..) (takes_only ..)) (through_one (by rfl) _) "vovl"

private theorem subtitled_shows {picture : Picture} {signal : Signal} {labels : List String}
    (shows : Shows inputCount picture signal labels) (path : String) :
    Shows inputCount (Picture.subtitled path picture) (subtitled (some path) signal) (labels ++ ["vsub"]) :=
  shows.extend (.done (.refl _)) (takes_only ..) (through_one (by rfl) _) "vsub"

theorem optionally_shows {picture : Picture} {signal : Signal} {labels more : List String} (next : Signal)
    (shows : Shows inputCount picture signal labels) (step : α → Picture → Picture) (choice : Option α)
    (taken : ∀ value, choice = some value → Shows inputCount (step value picture) next (labels ++ more))
    (left : choice = none → next = signal) :
    Shows inputCount (Picture.optionally step choice picture) next (labels ++ more) := by
  cases choice with
  | none => exact left rfl ▸ shows.widen more
  | some value => exact taken value rfl

/-- The box of a region has the pixels between its edges. -/
theorem blurred_eq (plan : Plan) (canvas : Canvas) (signal : Signal) :
    blurred computed canvas plan.region signal =
      match plan.blurBox canvas with | none => signal | some box => patched box signal := by
  unfold blurred Plan.blurBox
  cases plan.region with
  | none => rfl
  | some region =>
    have width : (span computed canvas.width region.x region.width).behind -
        (span computed canvas.width region.x region.width).first = (Box.ofRegion region canvas).width := by
      simp only [span, computed, Box.ofRegion]
      omega
    have height : (span computed canvas.height region.y region.height).behind -
        (span computed canvas.height region.y region.height).first = (Box.ofRegion region canvas).height := by
      simp only [span, computed, Box.ofRegion]
      omega
    have empty : (Box.ofRegion region canvas).isEmpty = false ↔
        (span computed canvas.width region.x region.width).first <
          (span computed canvas.width region.x region.width).behind ∧
        (span computed canvas.height region.y region.height).first <
          (span computed canvas.height region.y region.height).behind := by
      simp only [Box.isEmpty, Bool.or_eq_false_iff, decide_eq_false_iff_not]
      omega
    have laid : blurredBox (span computed canvas.width region.x region.width)
        (span computed canvas.height region.y region.height) signal = patched (Box.ofRegion region canvas) signal := by
      rw [blurredBox, width, height]
      rfl
    simp only [← empty, laid]
    cases enabled : region.enabled <;> cases filled : (Box.ofRegion region canvas).isEmpty <;>
      simp [Option.filter, enabled, filled]

theorem overlay_known {plan : Plan} {index : Nat} (overlay : plan.overlayInput = some index) :
    plan.hasOverlay = true ∧ index = 1 + plan.clips.length ∧ index < plan.inputCount := by
  unfold Plan.overlayInput at overlay
  unfold Plan.inputCount
  split at overlay
  · cases overlay
    simp_all
  · cases overlay

theorem finished_yields (plan : Plan) (canvas : Canvas) :
    Yields plan.inputCount (Picture.finished plan canvas) videoOutput (picture computed plan canvas) ∧
      (written (Picture.finished plan canvas)).Sublist
        (FilterLabels.pictureLabels plan.segments.length) := by
  have source : 0 < plan.inputCount := by
    unfold Plan.inputCount
    omega
  have assembled := assembled_shows plan canvas source
  have blurs := optionally_shows (blurred computed canvas plan.region _) assembled Picture.blurred
    (plan.blurBox canvas)
    (fun box chosen => by
      rw [blurred_eq, chosen]
      exact blurred_shows assembled box)
    (fun left => by rw [blurred_eq, left])
  have overlays := optionally_shows (overlaid plan canvas _) blurs (Picture.overlaid canvas)
    plan.overlayInput
    (fun index chosen => by
      obtain ⟨present, rfl, known⟩ := overlay_known chosen
      simp only [overlaid, present, if_true]
      exact overlaid_shows blurs canvas _ known)
    (fun left => by
      have absent : plan.hasOverlay = false := by simpa [Plan.overlayInput] using left
      simp [overlaid, absent])
  have subtitles := optionally_shows (subtitled plan.subtitles _) overlays Picture.subtitled
    plan.subtitles
    (fun path chosen => by
      rw [chosen]
      exact subtitled_shows overlays path)
    (fun left => by rw [left]; rfl)
  obtain ⟨renamed, found, yields, bounded⟩ := subtitles.yields.relabel videoOutput
  have same : Picture.finished plan canvas = renamed := by
    simp only [Picture.finished, found, Option.getD_some]
  rw [same]
  exact ⟨yields, bounded _ subtitles.bounded⟩

end Montage.Proofs.FilterPicture
