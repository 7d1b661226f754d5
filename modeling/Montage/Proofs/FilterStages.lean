import Montage.Proofs.FilterIntent
import Montage.Proofs.FilterLabels

/-! The pieces that compiled graphs are put together from, in the account of their wiring. -/

namespace Montage.Proofs.FilterStages
open Montage.Filter FilterEffects FilterWiring FilterIntent

variable {inputCount : Nat}

/-- Nodes leave one signal under the label of their last one, and would under any other label. -/
def Yields (inputCount : Nat) (nodes : List Node) (label : String) (signal : Signal) : Prop :=
  ∃ front inputs filters, nodes = front ++ [⟨inputs, filters, [label]⟩] ∧
    ∀ name, Runs inputCount [] (front ++ [⟨inputs, filters, [name]⟩]) [(name, signal)]

namespace Yields

theorem runs {nodes : List Node} {label : String} {signal : Signal}
    (yields : Yields inputCount nodes label signal) : Runs inputCount [] nodes [(label, signal)] := by
  obtain ⟨front, inputs, filters, rfl, any⟩ := yields
  exact any label

theorem of_takes {front : List Node} {middle : Scope} {inputs : List Pad} {sources : List Signal}
    {filters : List Filter} {outputs : Nat → Signal} (first : Runs inputCount [] front middle)
    (takes : Takes inputCount middle inputs sources []) (works : through filters sources = some outputs)
    (label : String) : Yields inputCount (front ++ [⟨inputs, filters, [label]⟩]) label (outputs 0) :=
  ⟨front, inputs, filters, rfl, fun _ => first.append (.node takes works (.done (.refl _)))⟩

theorem of_chain {front : List Node} {middle : Scope} {pad : Pad} {source : Signal}
    {filters : List Filter} (first : Runs inputCount [] front middle)
    (takes : Takes inputCount middle [pad] [source] []) (some_filter : filters ≠ []) (composed : Composed filters)
    (label : String) :
    Yields inputCount (front ++ [.chain pad filters label]) label (.chain (filters.map effectOf) source) := by
  obtain ⟨outputs, works, same⟩ := through_chain some_filter composed source
  exact same ▸ of_takes first takes works label

/-- Renaming the label of the last node keeps what it stands for. -/
theorem relabel {nodes : List Node} {label : String} {signal : Signal}
    (yields : Yields inputCount nodes label signal) (new : String) :
    ∃ renamed, relabelLast label new nodes = some renamed ∧ Yields inputCount renamed new signal ∧
      ∀ labels, (written nodes).Sublist labels → (written renamed).Sublist (labels ++ [new]) := by
  obtain ⟨front, inputs, filters, rfl, any⟩ := yields
  refine ⟨_, FilterLabels.relabelLast_ends .., ⟨front, inputs, filters, rfl, any⟩, ?_⟩
  intro labels bounded
  rw [written_append] at bounded ⊢
  exact ((List.sublist_append_left ..).trans bounded).append (List.Sublist.refl [new])

end Yields

theorem takes_only (label : String) (signal : Signal) :
    Takes inputCount [(label, signal)] [.label label] [signal] [] :=
  .label (.refl _) (.done (.refl _))

theorem takes_input (index : Nat) (stream : Stream) (known : index < inputCount) :
    Takes inputCount [] [.input index stream] [.input index stream] [] :=
  .input known (.done (.refl _))

private theorem takes_all (inputCount : Nat) (scope : Scope) :
    Takes inputCount scope (scope.map fun entry => .label entry.1) (scope.map Prod.snd) [] := by
  induction scope with
  | nil => exact .done (.refl _)
  | cons entry rest ih => exact .label (.refl _) ih

/-- A scope that holds one signal for each item, under a label of its own. -/
def itemScope (items : List α) (label : Nat → String) (signal : Nat → α → Signal) : Scope :=
  items.mapIdx fun index item => (label index, signal index item)

theorem takes_items (inputCount : Nat) (items : List α) (label : Nat → String) (signal : Nat → α → Signal) :
    Takes inputCount (itemScope items label signal) (items.mapIdx fun index _ => .label (label index))
      (items.mapIdx signal) [] := by
  have takes := takes_all inputCount (itemScope items label signal)
  simpa only [itemScope, List.mapIdx_eq_zipIdx_map, List.map_map, Function.comp_def] using takes

theorem runs_items (items : List α) (label : Nat → String) (index : Nat → Nat) (stream : Stream)
    (filters : α → List Filter) (known : ∀ position < items.length, index position < inputCount)
    (some_filter : ∀ item, filters item ≠ []) (composed : ∀ item, Composed (filters item)) :
    Runs inputCount []
      (items.mapIdx fun position item => .chain (.input (index position) stream) (filters item) (label position))
      (itemScope items label fun position item =>
        .chain ((filters item).map effectOf) (.input (index position) stream)) := by
  induction items generalizing label index with
  | nil => exact .done (.refl _)
  | cons item rest ih =>
    obtain ⟨outputs, works, same⟩ :=
      through_chain (some_filter item) (composed item) (.input (index 0) stream)
    have later := ih (fun position => label (position + 1)) (fun position => index (position + 1))
      fun position inside => known (position + 1) (by simpa using inside)
    have both := (later.frame [(label 0, outputs 0)]).settle List.perm_append_comm
    simp only [itemScope, List.mapIdx_cons]
    refine .node (takes_input (index 0) stream (known 0 (by simp))) works ?_
    rw [← same]
    exact both

private theorem takes_length {scope rest : Scope} {pads : List Pad} {signals : List Signal}
    (takes : Takes inputCount scope pads signals rest) : pads.length = signals.length := by
  induction takes with
  | done => rfl
  | input _ _ ih => simp [ih]
  | label _ _ ih => simp [ih]

/-- Joining what is in scope: the nodes that it takes, and what its pad stands for then. -/
theorem joined_takes {scope : Scope} {pads : List Pad} {signals : List Signal}
    (source : 0 < inputCount) (takes : Takes inputCount scope pads signals []) (filter : Nat → Filter)
    (composed : ∀ count, isComposed (filter count) = true) (label : String) (stream : Stream) :
    ∃ middle, Runs inputCount scope (joined pads filter label (.input 0 stream)).1 middle ∧
      Takes inputCount middle [(joined pads filter label (.input 0 stream)).2]
        [combined (fun count => effectOf (filter count)) (.input 0 stream) signals] [] := by
  match pads, signals, takes_length takes with
  | [], [], _ =>
    cases takes with
    | done same => exact ⟨scope, .done (.refl _), .input source (.done same)⟩
  | [only], [signal], _ => exact ⟨scope, .done (.refl _), takes⟩
  | first :: second :: pads, one :: two :: signals, lengths =>
    refine ⟨_, .node takes (through_one (composed _) _) (.done (.refl _)), ?_⟩
    rw [lengths]
    exact takes_only label _

/-- Joining after nodes ends in a node that may be renamed, provided that the nodes before end in the
one signal where there is only one. -/
theorem joined_yields {front : List Node} {scope : Scope} {pads : List Pad} {signals : List Signal}
    (first : Runs inputCount [] front scope) (takes : Takes inputCount scope pads signals [])
    (some_pad : pads ≠ [])
    (single : ∀ pad signal, pads = [pad] → signals = [signal] →
      ∃ name, pad = .label name ∧ Yields inputCount front name signal)
    (filter : Nat → Filter) (composed : ∀ count, isComposed (filter count) = true) (label : String) (stream : Stream) :
    ∃ name, (joined pads filter label (.input 0 stream)).2 = .label name ∧
      Yields inputCount (front ++ (joined pads filter label (.input 0 stream)).1) name
        (combined (fun count => effectOf (filter count)) (.input 0 stream) signals) := by
  match pads, signals, takes_length takes with
  | [], [], _ => exact absurd rfl some_pad
  | [only], [signal], _ => simpa [joined, combined] using single only signal rfl rfl
  | a :: b :: pads, one :: two :: signals, lengths =>
    refine ⟨label, rfl, ?_⟩
    have several : combined (fun count => effectOf (filter count)) (.input 0 stream) (one :: two :: signals) =
        .filtered (effectOf (filter (a :: b :: pads).length)) (one :: two :: signals) 0 := by
      rw [lengths]
      rfl
    rw [several]
    exact Yields.of_takes first takes (through_one (composed _) _) label

theorem written_items (items : List α) (label : Nat → String) (pad : Nat → Pad)
    (filters : α → List Filter) :
    written (items.mapIdx fun index item => .chain (pad index) (filters item) (label index)) =
      (List.range items.length).map label := by
  induction items generalizing label pad with
  | nil => rfl
  | cons item rest ih =>
    have later := ih (fun index => label (index + 1)) (fun index => pad (index + 1))
    rw [List.mapIdx_cons, List.length_cons, List.range_succ_eq_map, List.map_cons, List.map_map]
    exact congrArg (label 0 :: ·) later

theorem written_joined (pads : List Pad) (filter : Nat → Filter) (label : String) (stream : Stream) :
    (written (joined pads filter label (.input 0 stream)).1).Sublist [label] := by
  unfold joined
  split <;> simp [written]

theorem segments_take (segments : List Segment) (stream : Stream) (filters : Segment → List Filter)
    (source : 0 < inputCount) (some_filter : ∀ segment, filters segment ≠ [])
    (composed : ∀ segment, Composed (filters segment)) :
    ∃ scope, Runs inputCount [] (segmentNodes segments stream filters) scope ∧
      Takes inputCount scope (segmentPads segments stream)
        (segments.map fun segment => .chain ((filters segment).map effectOf) (.input 0 stream)) [] ∧
      written (segmentNodes segments stream filters) =
        FilterLabels.segmentLabels segments.length stream := by
  have takes := takes_items inputCount segments (segmentLabel · stream)
    fun _ segment => .chain ((filters segment).map effectOf) (.input 0 stream)
  have same : (segments.mapIdx fun _ segment => Signal.chain ((filters segment).map effectOf) (.input 0 stream)) =
      segments.map fun segment => Signal.chain ((filters segment).map effectOf) (.input 0 stream) := by
    rw [List.mapIdx_eq_iff]
    simp
  rw [same] at takes
  exact ⟨_, runs_items segments (segmentLabel · stream) (fun _ => 0) stream filters
      (fun _ _ => source) some_filter composed, takes,
    written_items segments (segmentLabel · stream) (fun _ => .input 0 stream) filters⟩

end Montage.Proofs.FilterStages
