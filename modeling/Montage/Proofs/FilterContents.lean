import Montage.Proofs.FilterCompile

/-! Where the filters of a compiled plan come from. Each of them belongs to a segment, to a clip or to the master
volume, or its text holds no amount of the plan that could be any double. -/

namespace Montage.Proofs.FilterContents
open Montage.Filter FilterIntent FilterCompile

/-- Whether the options of a filter are counts, sizes and paths only. -/
def isFixed : Filter → Bool
  | .trim .. | .retime _ | .trimSound .. | .tempo _ | .volume _ | .verbatim _ => false
  | _ => true

/-- Why a filter is in a compiled plan. -/
inductive Origin (plan : Plan) : Filter → Prop where
  | picture {segment : Segment} {filter : Filter} (held : segment ∈ plan.segments)
      (cuts : filter ∈ pictureFilters segment) : Origin plan filter
  | sound {segment : Segment} {filter : Filter} (held : segment ∈ plan.segments)
      (cuts : filter ∈ soundFilters segment) : Origin plan filter
  | clip {clip : Clip} {filter : Filter} (held : clip ∈ plan.clips) (treats : filter ∈ clipFilters clip) :
      Origin plan filter
  | master (loud : plan.hasMasterVolume = true) : Origin plan (.volume (linearGain plan.masterVolume))
  | fixed {filter : Filter} (fixed : isFixed filter = true) : Origin plan filter

/-- Whether every filter of some nodes has a property. -/
def Every (P : Filter → Prop) (nodes : List Node) : Prop :=
  ∀ node ∈ nodes, ∀ filter ∈ node.filters, P filter

section Nodes
variable {P : Filter → Prop} {nodes : List Node}

@[simp] theorem every_nil : Every P [] :=
  nofun

@[simp] theorem every_cons (node : Node) :
    Every P (node :: nodes) ↔ (∀ filter ∈ node.filters, P filter) ∧ Every P nodes :=
  List.forall_mem_cons

@[simp] theorem every_append (first second : List Node) : Every P (first ++ second) ↔ Every P first ∧ Every P second :=
  List.forall_mem_append

private theorem every_relabelLast (every : Every P nodes) (old new : String) :
    Every P ((relabelLast old new nodes).getD nodes) := by
  have bodies := FilterLabels.relabelLast_bodies old new nodes
  intro node member
  have body : FilterLabels.body node ∈ nodes.map FilterLabels.body := bodies ▸ List.mem_map_of_mem member
  obtain ⟨before, known, same⟩ := List.mem_map.mp body
  have filters : before.filters = node.filters := congrArg Prod.snd same
  exact filters ▸ every before known

theorem every_joined (pads : List Pad) {filter : Nat → Filter} (each : ∀ count, P (filter count)) (label : String)
    (none : Pad) : Every P (joined pads filter label none).1 := by
  unfold joined
  split <;> simp [each]

theorem every_segmentNodes {segments : List Segment} (stream : Stream) {filters : Segment → List Filter}
    (each : ∀ segment ∈ segments, ∀ filter ∈ filters segment, P filter) :
    Every P (segmentNodes segments stream filters) := by
  intro node member
  obtain ⟨index, inside, rfl⟩ := List.mem_mapIdx.mp member
  exact each _ (List.getElem_mem inside)

private theorem every_clipNodes {clips : List Clip} (each : ∀ clip ∈ clips, ∀ filter ∈ clipFilters clip, P filter) :
    Every P (clipNodes clips) := by
  intro node member
  obtain ⟨index, inside, rfl⟩ := List.mem_mapIdx.mp member
  exact each _ (List.getElem_mem inside)

theorem every_optionally (step : α → Picture → Picture) (choice : Option α) {picture : Picture}
    (every : Every P picture.nodes)
    (adds : ∀ value, choice = some value → Every P picture.nodes → Every P (step value picture).nodes) :
    Every P (Picture.optionally step choice picture).nodes := by
  cases choice with
  | none => exact every
  | some value => exact adds value rfl every

end Nodes

section Graph
variable {P : Filter → Prop} (plan : Plan) (canvas : Canvas)

theorem every_assembled (cuts : ∀ segment ∈ plan.segments, ∀ filter ∈ pictureFilters segment, P filter)
    (joins : ∀ count, P (.joinVideo count)) (normal : ∀ filter ∈ normalization canvas, P filter) :
    Every P (Picture.assembled plan canvas).nodes := by
  have cut := every_segmentNodes .video cuts
  have joined := every_joined (segmentPads plan.segments .video) joins "vcat" (.input 0 .video)
  simp only [Picture.assembled, every_append, every_cons, every_nil, and_true]
  exact ⟨⟨cut, joined⟩, normal⟩

/-- What holds of every filter that the stages put on a picture holds of the filters on the finished one. -/
theorem every_finished (assembled : Every P (Picture.assembled plan canvas).nodes)
    (blurs : ∀ box, plan.blurBox canvas = some box → P .split ∧ P (.crop box) ∧ P .blur ∧ P (.overlay box.x box.y))
    (covers : P (.scale canvas.width.toNat canvas.height.toNat) ∧ P (.overlay 0 0))
    (subtitles : ∀ path, P (.subtitles path)) : Every P (Picture.finished plan canvas) := by
  have blurred := every_optionally Picture.blurred (plan.blurBox canvas) assembled fun box chosen every => by
    obtain ⟨split, crop, blur, lays⟩ := blurs box chosen
    simp [Picture.blurred, Picture.extend, Node.chain, every, split, crop, blur, lays]
  have overlaid := every_optionally (Picture.overlaid canvas) plan.overlayInput blurred fun index _ every => by
    simp [Picture.overlaid, Picture.extend, Node.chain, every, covers]
  have subtitled := every_optionally Picture.subtitled plan.subtitles overlaid fun path _ every => by
    simp [Picture.subtitled, Picture.extend, Node.chain, every, subtitles]
  exact every_relabelLast subtitled _ _

theorem every_sourceSound (cuts : ∀ segment ∈ plan.segments, ∀ filter ∈ soundFilters segment, P filter)
    (joins : ∀ count, P (.joinSound count)) : Every P (sourceSound plan).1 := by
  have joined := every_joined (segmentPads plan.segments .sound) joins "acat" (.input 0 .sound)
  unfold sourceSound
  split
  · simp [every_segmentNodes .sound cuts, joined]
  · exact every_nil

/-- What holds of every filter that a sound may have holds of the filters on the finished one. -/
theorem every_soundNodes (source : Every P (sourceSound plan).1)
    (clips : ∀ clip ∈ plan.clips, ∀ filter ∈ clipFilters clip, P filter) (mixes : ∀ count, P (.mix count))
    (master : plan.hasMasterVolume = true → P (.volume (linearGain plan.masterVolume))) (passes : P .passSound) :
    Every P ((soundNodes plan).getD []) := by
  unfold soundNodes
  split
  · exact every_nil
  · simp only
    split
    · exact every_nil
    · have mixed := every_joined ((sourceSound plan).2 ++ clipPads plan.clips) mixes "amixed" (.input 0 .sound)
      have treated := every_clipNodes clips
      split
      next loud => simp [source, treated, mixed, Node.chain, master loud]
      next =>
        split
        · exact every_relabelLast (by simp [source, treated, mixed]) _ _
        · simp [source, treated, mixed, Node.chain, passes]

private theorem finished_origin : Every (Origin plan) (Picture.finished plan canvas) := by
  have fixed {filter : Filter} (fixed : isFixed filter = true) : Origin plan filter := .fixed fixed
  have normal : ∀ filter ∈ normalization canvas, Origin plan filter := by
    simp only [normalization, List.forall_mem_cons]
    exact ⟨fixed rfl, fixed rfl, fixed rfl, List.forall_mem_nil _⟩
  have assembled := every_assembled plan canvas (fun _ held _ => Origin.picture held) (fun _ => fixed rfl) normal
  exact every_finished plan canvas assembled (fun _ _ => ⟨fixed rfl, fixed rfl, fixed rfl, fixed rfl⟩)
    ⟨fixed rfl, fixed rfl⟩ fun _ => fixed rfl

private theorem soundNodes_origin : Every (Origin plan) ((soundNodes plan).getD []) := by
  have source := every_sourceSound plan (fun _ held _ => Origin.sound held) fun _ => .fixed rfl
  exact every_soundNodes plan source (fun _ held _ => Origin.clip held) (fun _ => .fixed rfl) .master (.fixed rfl)

theorem graph_origin : Every (Origin plan) (plan.graph canvas).nodes :=
  (every_append ..).mpr ⟨finished_origin plan canvas, soundNodes_origin plan⟩

end Graph

def filtersOf : Compiled → List Filter
  | .simple filters => filters
  | .complex graph _ => graph.nodes.flatMap Node.filters

theorem compile_origin (plan : Plan) (canvas : Canvas) :
    ∀ filter ∈ filtersOf (compiledOf plan canvas), Origin plan filter := by
  intro filter member
  unfold compiledOf at member
  split at member
  next simple =>
    refine .fixed ?_
    revert filter
    cases plan.subtitles <;> simp [filtersOf, normalization, isFixed]
  next complex =>
    obtain ⟨node, known, inside⟩ := List.mem_flatMap.mp member
    exact graph_origin plan canvas node known filter inside

end Montage.Proofs.FilterContents
