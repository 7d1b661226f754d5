import Montage.Proofs.FilterLabels

/-! Which inputs a compiled graph reads, and as what: the picture of the source, each clip once as
sound, and the overlay image once as a picture. -/

namespace Montage.Proofs.FilterInputs
open Montage.Filter

def reading (index : Nat) : Pad → Option Stream
  | .input other stream => if other = index then some stream else none
  | .label _ => none

/-- The streams that nodes read from an input, one for each pad. -/
def readings (index : Nat) (nodes : List Node) : List Stream :=
  (nodes.flatMap Node.inputs).filterMap (reading index)

@[simp] theorem readings_nil (index : Nat) : readings index [] = [] := rfl

@[simp] theorem readings_append (index : Nat) (first second : List Node) :
    readings index (first ++ second) = readings index first ++ readings index second := by
  simp [readings]

@[simp] theorem readings_cons (index : Nat) (node : Node) (nodes : List Node) :
    readings index (node :: nodes) = node.inputs.filterMap (reading index) ++ readings index nodes := by
  simp [readings]

private theorem readings_relabelLast (index : Nat) (old new : String) (nodes : List Node) :
    readings index ((relabelLast old new nodes).getD nodes) = readings index nodes := by
  have by_bodies : ∀ nodes, readings index nodes =
      ((nodes.map FilterLabels.body).flatMap Prod.fst).filterMap (reading index) := by
    simp [readings, FilterLabels.body, List.flatMap_map]
  rw [by_bodies, by_bodies, FilterLabels.relabelLast_bodies]

/-- Pads of labels and of the source. -/
def Inner (pads : List Pad) : Prop :=
  ∀ pad ∈ pads, ∀ index stream, pad = .input index stream → index = 0

theorem Inner.readings {pads : List Pad} (inner : Inner pads) {index : Nat} (clip : index ≠ 0) :
    pads.filterMap (reading index) = [] := by
  rw [List.filterMap_eq_nil_iff]
  intro pad member
  cases pad with
  | label => rfl
  | input other stream =>
    have source := inner _ member other stream rfl
    simp [reading, source, Ne.symm clip]

private theorem inner_segmentPads (segments : List Segment) (stream : Stream) :
    Inner (segmentPads segments stream) := by
  intro pad member index other same
  obtain ⟨position, inside, rfl⟩ := List.mem_mapIdx.mp member
  cases same

private theorem inner_clipPads (clips : List Clip) : Inner (clipPads clips) := by
  intro pad member index other same
  obtain ⟨position, inside, rfl⟩ := List.mem_mapIdx.mp member
  cases same

theorem inner_joined {pads : List Pad} (inner : Inner pads) (filter : Nat → Filter) (label : String)
    (stream : Stream) : Inner [(joined pads filter label (.input 0 stream)).2] := by
  unfold joined
  split
  · simp [Inner]
  · exact inner
  · simp [Inner]

theorem readings_joined {pads : List Pad} (inner : Inner pads) (filter : Nat → Filter) (label : String)
    (none : Pad) {index : Nat} (clip : index ≠ 0) :
    readings index (joined pads filter label none).1 = [] := by
  unfold joined
  split
  · rfl
  · rfl
  · simpa using inner.readings clip

/-- Nodes on inputs that count up from a start read one stream from each. -/
private theorem readings_items (items : List α) (start : Nat) (stream : Stream) (filters : α → List Filter)
    (label : Nat → String) (index : Nat) :
    readings index (items.mapIdx fun position item =>
        .chain (.input (position + start) stream) (filters item) (label position)) =
      if start ≤ index ∧ index < start + items.length then [stream] else [] := by
  induction items generalizing start label with
  | nil => simp
  | cons item rest ih =>
    have later := ih (start + 1) fun position => label (position + 1)
    have shift : ∀ position, position + 1 + start = position + (start + 1) := by omega
    rw [List.mapIdx_cons, readings_cons]
    simp only [shift]
    rw [later]
    simp only [Node.chain, List.filterMap_cons, List.filterMap_nil, reading, List.length_cons]
    by_cases first : 0 + start = index
    · have inside : start ≤ index ∧ index < start + (rest.length + 1) := by omega
      have passed : ¬(start + 1 ≤ index ∧ index < start + 1 + rest.length) := by omega
      simp only [if_pos first, if_pos inside, if_neg passed, List.append_nil]
    · have same : (start ≤ index ∧ index < start + (rest.length + 1)) ↔
          start + 1 ≤ index ∧ index < start + 1 + rest.length := by omega
      simp only [if_neg first, same, List.nil_append]

private theorem readings_segmentNodes (segments : List Segment) (stream : Stream)
    (filters : Segment → List Filter) {index : Nat} (clip : index ≠ 0) :
    readings index (segmentNodes segments stream filters) = [] := by
  rw [readings, List.filterMap_eq_nil_iff]
  intro pad member
  obtain ⟨node, inside, member⟩ := List.mem_flatMap.mp member
  obtain ⟨position, bound, rfl⟩ := List.mem_mapIdx.mp inside
  obtain rfl := List.mem_singleton.mp member
  simp [reading, Ne.symm clip]

theorem readings_clipNodes (clips : List Clip) (index : Nat) :
    readings index (clipNodes clips) = if 1 ≤ index ∧ index < 1 + clips.length then [.sound] else [] :=
  readings_items clips 1 .sound clipFilters clipLabel index

theorem readings_optionally (index : Nat) (step : α → Picture → Picture) (added : α → List Stream)
    (adds : ∀ value picture,
      readings index (step value picture).nodes = readings index picture.nodes ++ added value)
    (choice : Option α) (picture : Picture) :
    readings index (Picture.optionally step choice picture).nodes =
      readings index picture.nodes ++ (choice.map added).getD [] := by
  cases choice with
  | none => simp [Picture.optionally]
  | some value => simp [Picture.optionally, adds]

/-- After the first stage the picture reads the overlay image alone. -/
theorem readings_finished (plan : Plan) (canvas : Canvas) (index : Nat) :
    readings index (Picture.finished plan canvas) =
      readings index (Picture.assembled plan canvas).nodes ++
        if plan.overlayInput = some index then [.video] else [] := by
  have blurs := readings_optionally index Picture.blurred (fun _ => [])
    (fun box picture => by simp [Picture.blurred, Picture.extend, Node.chain, reading])
  have overlays := readings_optionally index (Picture.overlaid canvas)
    (fun input => if input = index then [.video] else [])
    (fun input picture => by
      by_cases same : input = index <;>
        simp [Picture.overlaid, Picture.extend, Node.chain, List.filterMap_cons, reading, same])
  have subtitles := readings_optionally index Picture.subtitled (fun _ => [])
    (fun path picture => by simp [Picture.subtitled, Picture.extend, Node.chain, reading])
  rw [Picture.finished, readings_relabelLast, subtitles, overlays, blurs]
  cases plan.blurBox canvas <;> cases plan.overlayInput <;> cases plan.subtitles <;> simp

theorem readings_assembled (plan : Plan) (canvas : Canvas) {index : Nat} (clip : index ≠ 0) :
    readings index (Picture.assembled plan canvas).nodes = [] := by
  have cut := inner_segmentPads plan.segments .video
  have last := (inner_joined cut .joinVideo "vcat" .video).readings clip
  simp only [Picture.assembled, readings_append, readings_segmentNodes _ _ _ clip,
    readings_joined cut _ _ _ clip, readings_cons, Node.chain, last, readings_nil, List.append_nil]

theorem source_mem_readings (plan : Plan) (canvas : Canvas) :
    Stream.video ∈ readings 0 (Picture.finished plan canvas) := by
  rw [readings_finished]
  apply List.mem_append_left
  unfold Picture.assembled
  cases plan.segments <;>
    simp [segmentNodes, segmentPads, joined, Node.chain, reading, List.mapIdx_cons]

private theorem readings_sourceSound (plan : Plan) {index : Nat} (clip : index ≠ 0) :
    readings index (sourceSound plan).1 = [] ∧ Inner (sourceSound plan).2 := by
  have cut := inner_segmentPads plan.segments .sound
  cases sounds : plan.sourceHasSound with
  | false => simp [sourceSound, sounds, Inner]
  | true =>
    simp only [sourceSound, sounds, if_true, readings_append]
    rw [readings_segmentNodes _ _ _ clip, readings_joined cut _ _ _ clip]
    exact ⟨rfl, inner_joined cut .joinSound "acat" .sound⟩

/-- Of the inputs other than the source the sound reads the clips alone. -/
theorem readings_soundNodes (plan : Plan) {index : Nat} (clip : index ≠ 0) :
    readings index ((soundNodes plan).getD []) =
      if 1 ≤ index ∧ index < 1 + plan.clips.length then [.sound] else [] := by
  obtain ⟨source, inner⟩ := readings_sourceSound plan clip
  have pads : Inner ((sourceSound plan).2 ++ clipPads plan.clips) := by
    intro pad member
    rcases List.mem_append.mp member with member | member
    · exact inner pad member
    · exact inner_clipPads plan.clips pad member
  have mixes := readings_joined pads .mix "amixed" (.input 0 .sound) clip
  have last := (inner_joined pads .mix "amixed" .sound).readings clip
  have silent : plan.clips = [] → ¬(1 ≤ index ∧ index < 1 + plan.clips.length) := by
    intro none
    simp only [none, List.length_nil]
    omega
  unfold soundNodes
  split
  next leaves =>
    have none : plan.clips = [] := by
      simp only [Plan.leavesSound, Bool.and_eq_true, List.isEmpty_iff] at leaves
      exact leaves.1.2
    simp [silent none]
  next =>
    simp only
    split
    next empty =>
      have none : plan.clips = [] := by
        simp only [List.isEmpty_iff, List.append_eq_nil_iff, clipPads, List.mapIdx_eq_nil_iff] at empty
        exact empty.2
      simp [silent none]
    next =>
      split
      · simp [source, readings_clipNodes, mixes, Node.chain, last]
      · split
        · simp [readings_relabelLast, source, readings_clipNodes, mixes]
        next pad _ =>
          simp [source, readings_clipNodes, mixes, Node.chain, last]

end Montage.Proofs.FilterInputs
