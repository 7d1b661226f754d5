import Montage.Proofs.FilterContents

/-! The blurred region of a compiled plan. Its box stays on the canvas, whatever doubles the region has, and is laid
back where it was cut out. A region that is disabled or covers no pixel leaves no trace. -/

namespace Montage.Proofs.FilterBlur
open Montage.Filter FilterIntent FilterCompile FilterContents

/-- A box of whole pixels that lies on a canvas. -/
structure Within (box : Box) (canvas : Canvas) : Prop where
  left : box.x ≤ canvas.width.toNat
  right : box.x + box.width ≤ canvas.width.toNat
  top : box.y ≤ canvas.height.toNat
  bottom : box.y + box.height ≤ canvas.height.toNat

/-- A pixel that lies in a box. -/
structure Covers (box : Box) (column row : Nat) : Prop where
  columns : box.x ≤ column ∧ column < box.x + box.width
  rows : box.y ≤ row ∧ row < box.y + box.height

/-- Whether a filter is there for the sake of a blurred region alone. -/
def isBlur : Filter → Bool
  | .split | .crop _ | .blur => true
  | _ => false

/-- The normalized picture, a box of one copy of it that is blurred, and the box laid over the other copy. -/
def patch (canvas : Canvas) (box : Box) (pad : Pad) (label : String) : List Node :=
  [.chain pad (normalization canvas) "vnorm", ⟨[.label "vnorm"], [.split], ["vbase", "vblursrc"]⟩,
    .chain (.label "vblursrc") [.crop box, .blur] "vblurred",
    ⟨[.label "vbase", .label "vblurred"], [.overlay box.x box.y], [label]⟩]

/-- Nodes that blur a box of the normalized picture and nothing else. -/
inductive Patched (canvas : Canvas) (box : Box) : List Node → Prop where
  | mk {before after : List Node} {pad : Pad} {label : String} (clear_before : Every (isBlur · = false) before)
      (clear_after : Every (isBlur · = false) after) :
      Patched canvas box (before ++ patch canvas box pad label ++ after)

section Boxes
variable (region : Region) (canvas : Canvas)

private theorem ofRegion_within : Within (Box.ofRegion region canvas) canvas := by
  have side {part rest length : Nat} (inside : part ≤ length) : part + min rest (length - part) ≤ length := by omega
  have left : (Box.ofRegion region canvas).x ≤ canvas.width.toNat := Nat.min_le_right _ _
  have top : (Box.ofRegion region canvas).y ≤ canvas.height.toNat := Nat.min_le_right _ _
  exact ⟨left, side left, top, side top⟩

/-- What is left of a length is a word: taking off a part of it does not wrap around. -/
theorem rest_exact {length : UInt32} {part : Nat} (fits : part ≤ length.toNat) :
    part + (length - .ofNat part).toNat = length.toNat := by
  have same : (UInt32.ofNat part).toNat = part :=
    UInt32.toNat_ofNat_of_lt' (Nat.lt_of_le_of_lt fits length.toNat_lt)
  have below : UInt32.ofNat part ≤ length := UInt32.le_iff_toNat_le.mpr (same.symm ▸ fits)
  rw [UInt32.toNat_sub_of_le _ _ below, same, Nat.add_sub_of_le fits]

theorem isEmpty_iff {box : Box} : box.isEmpty = true ↔ ∀ column row, ¬ Covers box column row := by
  constructor
  · intro empty column row covers
    obtain ⟨⟨left, right⟩, top, bottom⟩ := covers
    obtain none | none : box.width = 0 ∨ box.height = 0 := by simpa [Box.isEmpty] using empty
    · omega
    · omega
  · intro uncovered
    have corner : ¬ (0 < box.width ∧ 0 < box.height) := by
      rintro ⟨wide, high⟩
      exact uncovered box.x box.y
        ⟨⟨Nat.le_refl _, Nat.lt_add_of_pos_right wide⟩, Nat.le_refl _, Nat.lt_add_of_pos_right high⟩
    have none : box.width = 0 ∨ box.height = 0 := by omega
    simpa [Box.isEmpty] using none

private theorem blurBox_some {plan : Plan} {canvas : Canvas} {box : Box} (chosen : plan.blurBox canvas = some box) :
    ∃ region, plan.region = some region ∧ region.enabled = true ∧ box = Box.ofRegion region canvas ∧
      0 < box.width ∧ 0 < box.height := by
  obtain ⟨taken, filled⟩ := Option.filter_eq_some_iff.mp chosen
  obtain ⟨region, wanted, rfl⟩ := Option.map_eq_some_iff.mp taken
  obtain ⟨given, enabled⟩ := Option.filter_eq_some_iff.mp wanted
  obtain ⟨wide, high⟩ : ¬ (Box.ofRegion region canvas).width = 0 ∧ ¬ (Box.ofRegion region canvas).height = 0 := by
    simpa [Box.isEmpty] using filled
  exact ⟨region, given, enabled, rfl, Nat.pos_of_ne_zero wide, Nat.pos_of_ne_zero high⟩

private theorem blurBox_none {plan : Plan} {region : Region} (given : plan.region = some region)
    (nothing : region.enabled = false ∨ ∀ column row, ¬ Covers (Box.ofRegion region canvas) column row) :
    plan.blurBox canvas = none := by
  rw [← isEmpty_iff] at nothing
  unfold Plan.blurBox
  obtain disabled | empty := nothing
  · simp [given, disabled, Option.filter]
  · cases enabled : region.enabled <;> simp [given, empty, enabled, Option.filter]

end Boxes

section Nodes
variable {plan : Plan} {canvas : Canvas}

private theorem relabelLast_after {front back renamed : List Node} {old new : String}
    (found : relabelLast old new back = some renamed) :
    relabelLast old new (front ++ back) = some (front ++ renamed) := by
  induction front with
  | nil => exact found
  | cons node rest ih => rw [List.cons_append, relabelLast, ih, List.cons_append]

/-- A picture that has been patched. Either the patch shows it or a later node does. -/
inductive Shown (canvas : Canvas) (box : Box) : Picture → Prop where
  | fresh {before : List Node} {pad : Pad} (clear : Every (isBlur · = false) before) :
      Shown canvas box ⟨before ++ patch canvas box pad "vblur", "vblur"⟩
  | later {before after : List Node} {pad : Pad} {inputs : List Pad} {filters : List Filter} {label : String}
      (clear_before : Every (isBlur · = false) before)
      (clear_after : Every (isBlur · = false) (after ++ [⟨inputs, filters, [label]⟩])) :
      Shown canvas box ⟨before ++ patch canvas box pad "vblur" ++ (after ++ [⟨inputs, filters, [label]⟩]), label⟩

theorem Shown.extend {box : Box} {picture : Picture} (shown : Shown canvas box picture) {inputs : List Pad}
    {filters : List Filter} (label : String) (front : List Node)
    (clear : Every (isBlur · = false) (front ++ [⟨inputs, filters, [label]⟩])) :
    Shown canvas box ⟨picture.nodes ++ (front ++ [⟨inputs, filters, [label]⟩]), label⟩ := by
  cases shown with
  | fresh clear_before => exact .later clear_before clear
  | @later _ after _ _ _ _ clear_before clear_after =>
    have both := (every_append ..).mpr ⟨clear_after, clear⟩
    rw [← List.append_assoc] at both
    simpa only [List.append_assoc] using Shown.later clear_before both

theorem Shown.optionally {box : Box} {picture : Picture} (shown : Shown canvas box picture)
    (step : α → Picture → Picture) (choice : Option α)
    (keeps : ∀ value, Shown canvas box (step value picture)) :
    Shown canvas box (Picture.optionally step choice picture) := by
  cases choice with
  | none => exact shown
  | some value => exact keeps value

theorem Shown.relabel {box : Box} {picture : Picture} (shown : Shown canvas box picture) (new : String) :
    Patched canvas box ((relabelLast picture.label new picture.nodes).getD picture.nodes) := by
  cases shown with
  | @fresh before pad clear =>
    have renamed : relabelLast "vblur" new (before ++ patch canvas box pad "vblur") =
        some (before ++ patch canvas box pad new) :=
      relabelLast_after (FilterLabels.relabelLast_ends ((patch canvas box pad "vblur").take 3) _ _ _ _)
    have patched : Patched canvas box (before ++ patch canvas box pad new ++ []) := .mk clear (every_nil)
    rw [List.append_nil] at patched
    exact (congrArg (Option.getD · _) renamed).symm ▸ patched
  | @later before after pad inputs filters label clear_before clear_after =>
    rw [← List.append_assoc, FilterLabels.relabelLast_ends, Option.getD_some, List.append_assoc]
    apply Patched.mk clear_before
    simpa using clear_after

private theorem finished_patched {box : Box} (chosen : plan.blurBox canvas = some box) :
    Patched canvas box (Picture.finished plan canvas) := by
  have cuts : Every (isBlur · = false) (segmentNodes plan.segments .video pictureFilters) :=
    every_segmentNodes .video (by simp [pictureFilters, isBlur])
  have joins : Every (isBlur · = false)
      (joined (segmentPads plan.segments .video) .joinVideo "vcat" (.input 0 .video)).1 := by
    apply every_joined
    exact fun _ => rfl
  have blurred : Shown canvas box (Picture.blurred box (Picture.assembled plan canvas)) := by
    let pad := (joined (segmentPads plan.segments .video) .joinVideo "vcat" (.input 0 .video)).2
    have shown : Shown canvas box ⟨_ ++ patch canvas box pad "vblur", "vblur"⟩ :=
      .fresh ((every_append ..).mpr ⟨cuts, joins⟩)
    simpa [pad, Picture.blurred, Picture.assembled, Picture.extend, patch] using shown
  have overlaid := blurred.optionally (Picture.overlaid canvas) plan.overlayInput fun index =>
    blurred.extend "vovl" [.chain (.input index .video) [.scale canvas.width.toNat canvas.height.toNat] "ovlimg"]
      (by simp [Node.chain, isBlur])
  have subtitled := overlaid.optionally Picture.subtitled plan.subtitles fun path =>
    overlaid.extend "vsub" [] (by simp [isBlur])
  rw [Picture.finished, chosen]
  exact subtitled.relabel videoOutput

private theorem soundNodes_clear (plan : Plan) : Every (isBlur · = false) ((soundNodes plan).getD []) := by
  have source := every_sourceSound (P := (isBlur · = false)) plan (by simp [soundFilters, isBlur]) fun _ => rfl
  have gains : ∀ clip ∈ plan.clips, ∀ filter ∈ clipFilters clip, isBlur filter = false := by
    intro clip _ filter treats
    obtain gain | delay := List.mem_append.mp treats
    · obtain ⟨volume, -, rfl⟩ := List.mem_map.mp gain
      rfl
    · obtain rfl := List.mem_singleton.mp delay
      rfl
  exact every_soundNodes plan source gains (fun _ => rfl) (fun _ => rfl) rfl

theorem Patched.append {box : Box} {nodes : List Node} (patched : Patched canvas box nodes) {more : List Node}
    (clear : Every (isBlur · = false) more) : Patched canvas box (nodes ++ more) := by
  obtain ⟨clear_before, clear_after⟩ := patched
  rw [List.append_assoc]
  exact .mk clear_before ((every_append ..).mpr ⟨clear_after, clear⟩)

private theorem graph_patched {box : Box} (chosen : plan.blurBox canvas = some box) :
    Patched canvas box (plan.graph canvas).nodes :=
  (finished_patched chosen).append (soundNodes_clear plan)

private theorem compile_clear (nothing : plan.blurBox canvas = none) :
    ∀ filter ∈ filtersOf (compiledOf plan canvas), isBlur filter = false := by
  have cuts : ∀ segment ∈ plan.segments, ∀ filter ∈ pictureFilters segment, isBlur filter = false := by
    simp [pictureFilters, isBlur]
  have assembled := every_assembled (P := (isBlur · = false)) plan canvas cuts (fun _ => rfl)
    (by simp [normalization, isBlur])
  have finished := every_finished plan canvas assembled (by simp [nothing]) ⟨rfl, rfl⟩ fun _ => rfl
  have clear : Every (isBlur · = false) (plan.graph canvas).nodes :=
    (every_append ..).mpr ⟨finished, soundNodes_clear plan⟩
  unfold compiledOf
  split
  next => cases plan.subtitles <;> simp [filtersOf, normalization, isBlur]
  next =>
    intro filter member
    obtain ⟨node, known, inside⟩ := List.mem_flatMap.mp member
    exact clear node known filter inside

private theorem compile_without (nothing : plan.blurBox canvas = none) :
    plan.compile canvas = { plan with region := none }.compile canvas := by
  have absent : { plan with region := none }.blurBox canvas = none := rfl
  have simple : plan.isSimple canvas = { plan with region := none }.isSimple canvas := by
    rw [Plan.isSimple, Plan.isSimple, nothing, absent]
    rfl
  have finished : Picture.finished plan canvas = Picture.finished { plan with region := none } canvas := by
    rw [Picture.finished, Picture.finished, nothing, absent]
    rfl
  have same : compiledOf plan canvas = compiledOf { plan with region := none } canvas := by
    rw [compiledOf, compiledOf, simple, Plan.graph, Plan.graph, finished]
    rfl
  have alike : Endless { plan with region := none } ↔ Endless plan := Iff.rfl
  by_cases endless : Endless plan
  · rw [compile_endless endless, compile_endless (alike.mpr endless)]
  · rw [compile_eq endless, compile_eq (mt alike.mp endless), same]

end Nodes

section Text

def patchText (canvas : Canvas) (box : Box) (pad : Pad) (label : String) : List String :=
  [pad.text ++ "scale=" ++ toString canvas.width.toNat ++ ":" ++ toString canvas.height.toNat ++
      ":force_original_aspect_ratio=decrease,pad=" ++ toString canvas.width.toNat ++ ":" ++
      toString canvas.height.toNat ++ ":(ow-iw)/2:(oh-ih)/2,fps=" ++ toString canvas.frameRate.toNat ++ "[vnorm]",
    "[vnorm]split=2[vbase][vblursrc]",
    "[vblursrc]crop=" ++ toString box.width ++ ":" ++ toString box.height ++ ":" ++ toString box.x ++ ":" ++
      toString box.y ++ ",boxblur=luma_radius=20:luma_power=3[vblurred]",
    "[vbase][vblurred]overlay=" ++ toString box.x ++ ":" ++ toString box.y ++ "[" ++ label ++ "]"]

private theorem patch_text (canvas : Canvas) (box : Box) (pad : Pad) (label : String) :
    (patch canvas box pad label).map Node.text = patchText canvas box pad label := by
  have fit (width height : Nat) : (Filter.fit width height).text =
      "scale=" ++ toString width ++ ":" ++ toString height ++ ":force_original_aspect_ratio=decrease" := rfl
  have centre (width height : Nat) : (Filter.centre width height).text =
      "pad=" ++ toString width ++ ":" ++ toString height ++ ":(ow-iw)/2:(oh-ih)/2" := rfl
  have rate (rate : Nat) : (Filter.frameRate rate).text = "fps=" ++ toString rate := rfl
  have split : Filter.split.text = "split=2" := rfl
  have crop : (Filter.crop box).text = "crop=" ++ toString box.width ++ ":" ++ toString box.height ++ ":" ++
      toString box.x ++ ":" ++ toString box.y := rfl
  have blur : Filter.blur.text = "boxblur=luma_radius=20:luma_power=3" := rfl
  have lay (x y : Nat) : (Filter.overlay x y).text = "overlay=" ++ toString x ++ ":" ++ toString y := rfl
  simp [patch, patchText, Node.text, Node.chain, normalization, fit, centre, rate, split, crop, blur, lay, Pad.text,
    bracketed, String.join, ← String.toList_inj]

private theorem patched_text {canvas : Canvas} {box : Box} {graph : Graph} (patched : Patched canvas box graph.nodes) :
    ∃ front pad label back, graph.text = ";".intercalate (front ++ patchText canvas box pad label ++ back) := by
  obtain ⟨inputs, nodes⟩ := graph
  obtain @⟨before, after, pad, label⟩ := patched
  exact ⟨before.map Node.text, pad, label, after.map Node.text, by
    rw [← patch_text, ← List.map_append, ← List.map_append]
    rfl⟩

end Text

/-- The box of a region lies on the canvas, and what is cut off it never wraps around. Where anything is blurred, that
is an enabled region with a pixel: its box is cut out of the normalized picture and laid back at the same place, in one
graph and its text. A region that is disabled or has no pixel compiles as if it were not there. -/
theorem blur_stays (plan : Plan) (canvas : Canvas) :
    (∀ region, Within (Box.ofRegion region canvas) canvas ∧
      (Box.ofRegion region canvas).x + (canvas.width - .ofNat (Box.ofRegion region canvas).x).toNat =
        canvas.width.toNat ∧
      (Box.ofRegion region canvas).y + (canvas.height - .ofNat (Box.ofRegion region canvas).y).toNat =
        canvas.height.toNat) ∧
    (Endless plan ∧ plan.compile canvas = none ∨ ∃ compiled, plan.compile canvas = some (.ok compiled) ∧
      ∀ filter ∈ filtersOf compiled, isBlur filter = true → ∃ region box graph hasSound,
        plan.region = some region ∧ region.enabled = true ∧ box = Box.ofRegion region canvas ∧
        1 ≤ box.width ∧ 1 ≤ box.height ∧ Within box canvas ∧
        compiled = .complex graph hasSound ∧ Patched canvas box graph.nodes ∧
        ∃ front pad label back, compiled.argument =
          .ok (";".intercalate (front ++ patchText canvas box pad label ++ back))) ∧
    (∀ region, plan.region = some region →
      (region.enabled = false ∨ ∀ column row, ¬ Covers (Box.ofRegion region canvas) column row) →
        plan.compile canvas = { plan with region := none }.compile canvas) := by
  refine ⟨fun region => ?_, ?_, fun region given nothing => compile_without (blurBox_none canvas given nothing)⟩
  · have within := ofRegion_within region canvas
    exact ⟨within, rest_exact within.left, rest_exact within.top⟩
  by_cases endless : Endless plan
  · exact .inl ⟨endless, compile_endless endless canvas⟩
  refine .inr ⟨_, compile_eq endless canvas, fun filter member blurs => ?_⟩
  cases chosen : plan.blurBox canvas with
  | none => simp [compile_clear chosen filter member] at blurs
  | some box =>
    obtain ⟨region, given, enabled, rfl, wide, high⟩ := blurBox_some chosen
    have complex : plan.isSimple canvas = false := by simp [Plan.isSimple, chosen]
    have graph : compiledOf plan canvas = .complex (plan.graph canvas) (soundNodes plan).isSome := by
      rw [compiledOf, complex]
      rfl
    have patched := graph_patched chosen
    obtain ⟨front, pad, label, back, text⟩ := patched_text patched
    refine ⟨region, _, plan.graph canvas, (soundNodes plan).isSome, given, enabled, rfl, wide, high,
      ofRegion_within region canvas, graph, patched, front, pad, label, back, ?_⟩
    simp [graph, Compiled.argument, Graph.serialize, graph_valid, Except.map, text]

end Montage.Proofs.FilterBlur
