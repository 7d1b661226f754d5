import Montage.Proofs.FilterEffects

/-! What the labels of a filter graph stand for, and an account of its wiring in which a label is a
resource: a node takes the labels it reads and leaves those it writes. The account gives both the
check of a graph and the signals behind its outputs. -/

namespace Montage.Proofs.FilterWiring
open Montage.Filter FilterEffects

/-- What comes over a wire: a stream of an input file, or an output of what is done to other signals. -/
inductive Signal where
  | input (index : Nat) (stream : Stream)
  | filtered (effect : Effect) (sources : List Signal) (output : Nat)

/-- Effects one after the other, each with one input and one output. -/
def Signal.chain (effects : List Effect) (signal : Signal) : Signal :=
  effects.foldl (fun signal effect => .filtered effect [signal] 0) signal

/-- The outputs of a chain of filters, each of which does what its text says. All sources go to the first
filter, and all outputs come from the last one. -/
def through : List Filter → List Signal → Option (Nat → Signal)
  | [], _ => none
  | [filter], sources => (Effect.read filter.text).map fun effect => .filtered effect sources
  | filter :: rest, sources =>
    (Effect.read filter.text).bind fun effect => through rest [.filtered effect sources 0]

/-- The signals behind labels, the latest first. -/
abbrev Scope := List (String × Signal)

namespace Scope

def labels (scope : Scope) : List String :=
  scope.map Prod.fst

def signal (scope : Scope) : Pad → Option Signal
  | .input index stream => some (.input index stream)
  | .label name => scope.lookup name

def ofOutputs (outputs : Nat → Signal) (labels : List String) : Scope :=
  labels.mapIdx fun index label => (label, outputs index)

/-- The scope after nodes in order, if every label they read stands for something. -/
def after (scope : Scope) : List Node → Option Scope
  | [] => some scope
  | node :: rest =>
    match node.inputs.mapM scope.signal with
    | none => none
    | some sources =>
      match through node.filters sources with
      | none => none
      | some outputs => after (ofOutputs outputs node.outputs ++ scope) rest

end Scope

def resolve (graph : Graph) (label : String) : Option Signal :=
  (Scope.after [] graph.nodes).bind (·.lookup label)

def written (nodes : List Node) : List String :=
  nodes.flatMap Node.outputs

/-- The pads of a node take their signals out of a scope; what is left of it is for later nodes. -/
inductive Takes (inputCount : Nat) : Scope → List Pad → List Signal → Scope → Prop where
  | done {scope rest : Scope} (same : scope.Perm rest) : Takes inputCount scope [] [] rest
  | input {scope rest : Scope} {pads : List Pad} {signals : List Signal} {index : Nat}
      {stream : Stream} (known : index < inputCount) (later : Takes inputCount scope pads signals rest) :
      Takes inputCount scope (.input index stream :: pads) (.input index stream :: signals) rest
  | label {scope others rest : Scope} {pads : List Pad} {signals : List Signal} {name : String}
      {signal : Signal} (found : scope.Perm ((name, signal) :: others))
      (later : Takes inputCount others pads signals rest) :
      Takes inputCount scope (.label name :: pads) (signal :: signals) rest

/-- Nodes in order lead from one scope to another. A label that was read is in scope no more. -/
inductive Runs (inputCount : Nat) : Scope → List Node → Scope → Prop where
  | done {scope last : Scope} (same : scope.Perm last) : Runs inputCount scope [] last
  | node {scope rest last : Scope} {node : Node} {nodes : List Node} {sources : List Signal}
      {outputs : Nat → Signal} (takes : Takes inputCount scope node.inputs sources rest)
      (works : through node.filters sources = some outputs)
      (later : Runs inputCount (Scope.ofOutputs outputs node.outputs ++ rest) nodes last) :
      Runs inputCount scope (node :: nodes) last

variable {inputCount : Nat}

/-- Filters that are written from their options. -/
def Composed (filters : List Filter) : Prop :=
  ∀ filter ∈ filters, isComposed filter = true

theorem through_one {filter : Filter} (composed : isComposed filter = true) (sources : List Signal) :
    through [filter] sources = some (.filtered (effectOf filter) sources) := by
  rw [through, read_text composed, Option.map_some]

theorem through_chain {filters : List Filter} (some_filter : filters ≠ []) (composed : Composed filters)
    (signal : Signal) :
    ∃ outputs, through filters [signal] = some outputs ∧ outputs 0 = Signal.chain (filters.map effectOf) signal := by
  induction filters generalizing signal with
  | nil => exact absurd rfl some_filter
  | cons filter rest ih =>
    obtain ⟨first, others⟩ := List.forall_mem_cons.mp composed
    cases rest with
    | nil => exact ⟨_, through_one first [signal], rfl⟩
    | cons next rest =>
      have works : through (filter :: next :: rest) [signal] =
          through (next :: rest) [.filtered (effectOf filter) [signal] 0] := by
        rw [through, read_text first, Option.bind_some]
        simp
      rw [works]
      exact ih (by simp) others (.filtered (effectOf filter) [signal] 0)

@[simp] theorem labels_ofOutputs (outputs : Nat → Signal) (labels : List String) :
    (Scope.ofOutputs outputs labels).labels = labels := by
  apply List.ext_getElem <;> simp [Scope.ofOutputs, Scope.labels]

@[simp] theorem labels_append (first second : Scope) :
    Scope.labels (first ++ second) = first.labels ++ second.labels :=
  List.map_append

@[simp] theorem written_append (first second : List Node) :
    written (first ++ second) = written first ++ written second :=
  List.flatMap_append

namespace Takes

theorem frame {scope rest : Scope} {pads : List Pad} {signals : List Signal}
    (takes : Takes inputCount scope pads signals rest) (beside : Scope) :
    Takes inputCount (scope ++ beside) pads signals (rest ++ beside) := by
  induction takes with
  | done same => exact .done (same.append_right beside)
  | input known later ih => exact .input known ih
  | label found later ih => exact .label (found.append_right beside) ih

theorem perm {scope other rest : Scope} {pads : List Pad} {signals : List Signal}
    (takes : Takes inputCount scope pads signals rest) (same : other.Perm scope) :
    Takes inputCount other pads signals rest := by
  induction takes generalizing other with
  | done kept => exact .done (same.trans kept)
  | input known later ih => exact .input known (ih same)
  | label found later ih => exact .label (same.trans found) later

theorem append {scope middle rest : Scope} {first second : List Pad} {signals more : List Signal}
    (takes : Takes inputCount scope first signals middle)
    (later : Takes inputCount middle second more rest) :
    Takes inputCount scope (first ++ second) (signals ++ more) rest := by
  induction takes with
  | done same => exact later.perm same
  | input known _ ih => exact .input known (ih later)
  | label found _ ih => exact .label found (ih later)

end Takes

namespace Runs

theorem frame {scope last : Scope} {nodes : List Node} (runs : Runs inputCount scope nodes last)
    (beside : Scope) : Runs inputCount (scope ++ beside) nodes (last ++ beside) := by
  induction runs with
  | done same => exact .done (same.append_right beside)
  | node takes works later ih =>
    refine .node (takes.frame beside) works ?_
    rw [← List.append_assoc]
    exact ih

theorem perm {scope other last : Scope} {nodes : List Node} (runs : Runs inputCount scope nodes last)
    (same : other.Perm scope) : Runs inputCount other nodes last := by
  cases runs with
  | done kept => exact .done (same.trans kept)
  | node takes works later => exact .node (takes.perm same) works later

theorem settle {scope last other : Scope} {nodes : List Node} (runs : Runs inputCount scope nodes last)
    (same : last.Perm other) : Runs inputCount scope nodes other := by
  induction runs with
  | done kept => exact .done (kept.trans same)
  | node takes works _ ih => exact .node takes works (ih same)

theorem append {scope middle last : Scope} {front back : List Node}
    (first : Runs inputCount scope front middle) (second : Runs inputCount middle back last) :
    Runs inputCount scope (front ++ back) last := by
  induction first with
  | done same => exact second.perm same
  | node takes works _ ih => exact .node takes works (ih second)

end Runs

private theorem takes_labels {scope rest : Scope} {pads : List Pad} {signals : List Signal}
    (takes : Takes inputCount scope pads signals rest) {label : String}
    (member : label ∈ rest.labels) : label ∈ scope.labels := by
  induction takes with
  | done same => exact (same.map Prod.fst).mem_iff.mpr member
  | input _ _ ih => exact ih member
  | label found _ ih => exact (found.map Prod.fst).mem_iff.mpr (List.mem_cons_of_mem _ (ih member))

private theorem takes_known {scope rest : Scope} {pads : List Pad} {signals : List Signal}
    (takes : Takes inputCount scope pads signals rest) :
    (∀ index stream, .input index stream ∈ pads → index < inputCount) ∧
      ∀ name, .label name ∈ pads → name ∈ scope.labels := by
  induction takes with
  | done same => simp
  | input known _ ih =>
    obtain ⟨inputs, labels⟩ := ih
    refine ⟨?_, by simpa using labels⟩
    intro other stream member
    rcases List.mem_cons.mp member with same | later
    · cases same
      exact known
    · exact inputs other stream later
  | label found _ ih =>
    obtain ⟨inputs, labels⟩ := ih
    have names (label : String) := (found.map Prod.fst).mem_iff (a := label)
    refine ⟨by simpa using inputs, ?_⟩
    intro other member
    rcases List.mem_cons.mp member with same | later
    · cases same
      exact (names _).mpr (by simp)
    · exact (names _).mpr (List.mem_cons_of_mem _ (labels other later))

theorem nodes_known {scope last : Scope} {nodes : List Node} (runs : Runs inputCount scope nodes last) :
    ∀ node ∈ nodes, node.filters ≠ [] ∧
      (∀ index stream, .input index stream ∈ node.inputs → index < inputCount) ∧
      ∀ name, .label name ∈ node.inputs → name ∈ scope.labels ++ written nodes := by
  induction runs with
  | done => simp
  | @node scope rest last first nodes sources outputs takes works later ih =>
    obtain ⟨inputs, labels⟩ := takes_known takes
    intro node member
    rcases List.mem_cons.mp member with rfl | member
    · refine ⟨?_, inputs, fun name read => List.mem_append_left _ (labels name read)⟩
      intro none
      simp [none, through] at works
    · obtain ⟨some_filter, inputs, labels⟩ := ih node member
      refine ⟨some_filter, inputs, fun name read => ?_⟩
      have known := labels name read
      simp only [labels_append, labels_ofOutputs, List.mem_append, written, List.flatMap_cons] at known ⊢
      rcases known with (here | before) | after
      · exact .inr (.inl here)
      · exact .inl (takes_labels takes before)
      · exact .inr (.inr after)

/-- A wiring and a scope agree: in scope is what was written and not read yet. -/
structure Follows (wiring : Wiring) (scope : Scope) : Prop where
  live : ∀ label, label ∈ scope.labels ↔ label ∈ wiring.produced ∧ label ∉ wiring.consumed
  known : ∀ label ∈ wiring.consumed, label ∈ wiring.produced
  once : scope.labels.Nodup

theorem Follows.perm {wiring : Wiring} {scope other : Scope} (follows : Follows wiring scope)
    (same : scope.Perm other) : Follows wiring other := by
  have labels : scope.labels.Perm other.labels := same.map Prod.fst
  refine ⟨fun label => ?_, follows.known, labels.nodup follows.once⟩
  rw [← labels.mem_iff]
  exact follows.live label

private theorem consume_follows {scope rest : Scope} {pads : List Pad} {signals : List Signal}
    (takes : Takes inputCount scope pads signals rest) (wiring : Wiring)
    (follows : Follows wiring scope) :
    ∃ consumed, wiring.consume inputCount pads = .ok { wiring with consumed } ∧
      Follows { wiring with consumed } rest := by
  induction takes generalizing wiring with
  | done same => exact ⟨wiring.consumed, rfl, follows.perm same⟩
  | input known later ih =>
    simp only [Wiring.consume, if_pos known]
    exact ih wiring follows
  | @label scope others rest pads signals name signal found later ih =>
    have there := follows.perm found
    have head := (there.live name).mp (by simp [Scope.labels])
    have once := List.nodup_cons.mp there.once
    have step : Follows { wiring with consumed := name :: wiring.consumed } others := by
      refine ⟨fun label => ?_, ?_, once.2⟩
      · have live := there.live label
        simp only [Scope.labels, List.map_cons, List.mem_cons] at live ⊢
        by_cases same : label = name
        · subst same
          exact ⟨fun inside => absurd inside once.1, fun outside => absurd (Or.inl rfl) outside.2⟩
        · simpa [same] using live
      · intro label member
        rcases List.mem_cons.mp member with rfl | member
        · exact head.1
        · exact follows.known label member
    obtain ⟨consumed, taken, kept⟩ := ih _ step
    refine ⟨consumed, ?_, kept⟩
    simpa [Wiring.consume, head.1, head.2] using taken

private theorem produce_fresh (labels : List String) (wiring : Wiring)
    (fresh : (wiring.produced ++ labels).Nodup) :
    wiring.produce labels = .ok { wiring with produced := labels.reverse ++ wiring.produced } := by
  induction labels generalizing wiring with
  | nil => rfl
  | cons label rest ih =>
    have absent : label ∉ wiring.produced := fun inside =>
      (List.nodup_append.mp fresh).2.2 label inside label (by simp) rfl
    have next : ((label :: wiring.produced) ++ rest).Nodup := List.perm_middle.nodup_iff.mp fresh
    simp [Wiring.produce, absent, ih { wiring with produced := label :: wiring.produced } next]

private theorem produce_follows (labels : List String) (outputs : Nat → Signal) {wiring : Wiring}
    {scope : Scope} (follows : Follows wiring scope) (fresh : (wiring.produced ++ labels).Nodup) :
    ∃ produced, wiring.produce labels = .ok { wiring with produced } ∧
      produced.Perm (wiring.produced ++ labels) ∧
      Follows { wiring with produced } (Scope.ofOutputs outputs labels ++ scope) := by
  obtain ⟨_, distinct, apart⟩ := List.nodup_append.mp fresh
  refine ⟨_, produce_fresh labels wiring fresh,
    (labels.reverse_perm.append_right _).trans List.perm_append_comm, ?_, ?_, ?_⟩
  · intro label
    have live := follows.live label
    simp only [labels_append, labels_ofOutputs, List.mem_append, List.mem_reverse]
    constructor
    · rintro (new | old)
      · exact ⟨Or.inl new, fun used => apart label (follows.known label used) label new rfl⟩
      · exact ⟨Or.inr (live.mp old).1, (live.mp old).2⟩
    · rintro ⟨new | old, unused⟩
      · exact Or.inl new
      · exact Or.inr (live.mpr ⟨old, unused⟩)
  · intro label used
    exact List.mem_append_right _ (follows.known label used)
  · rw [labels_append, labels_ofOutputs, List.nodup_append]
    refine ⟨distinct, follows.once, ?_⟩
    rintro label new _ old rfl
    exact apart label ((follows.live label).mp old).1 label new rfl

/-- Nodes that the account covers pass the check of their wiring. -/
private theorem run_follows {scope last : Scope} {nodes : List Node} (runs : Runs inputCount scope nodes last)
    (wiring : Wiring) (follows : Follows wiring scope)
    (fresh : (wiring.produced ++ written nodes).Nodup) :
    ∃ final, wiring.run inputCount nodes = .ok final ∧
      final.produced.Perm (wiring.produced ++ written nodes) ∧ Follows final last := by
  -- What a node keeps is `Follows`; that labels are new is known of all nodes at once, and split off for the first.
  induction runs generalizing wiring with
  | done same => exact ⟨wiring, rfl, by simp [written], follows.perm same⟩
  | @node scope rest last node nodes sources outputs takes works later ih =>
    have some_filter : node.filters.isEmpty = false := by
      cases filters : node.filters with
      | nil => simp [filters, through] at works
      | cons => rfl
    have split : wiring.produced ++ written (node :: nodes) =
        (wiring.produced ++ node.outputs) ++ written nodes := by simp [written]
    rw [split] at fresh ⊢
    obtain ⟨consumed, taken, left⟩ := consume_follows takes wiring follows
    obtain ⟨produced, made, same, right⟩ := produce_follows node.outputs outputs left
      (List.nodup_append.mp fresh).1
    have grown := same.append_right (written nodes)
    obtain ⟨final, run, complete, ended⟩ := ih _ right (grown.nodup_iff.mpr fresh)
    exact ⟨final, by simp [Wiring.run, some_filter, taken, made, run], complete.trans grown, ended⟩

/-- A graph passes the check if its labels are distinct and those left in scope are the terminals. -/
theorem validate_of_runs {nodes : List Node} {last : Scope} {terminals : List String}
    (runs : Runs inputCount [] nodes last) (distinct : (written nodes).Nodup)
    (left : ∀ label, label ∈ last.labels ↔ label ∈ terminals) :
    Graph.validate ⟨inputCount, nodes⟩ terminals = .ok () := by
  have start : Follows {} [] := ⟨by simp [Scope.labels], by simp, by simp [Scope.labels]⟩
  obtain ⟨final, run, complete, follows⟩ := run_follows runs {} start (by simpa using distinct)
  have terminal : terminals.find? (fun terminal =>
      !final.produced.contains terminal || final.consumed.contains terminal) = none := by
    rw [List.find?_eq_none]
    intro label member
    obtain ⟨made, unread⟩ := (follows.live label).mp ((left label).mpr member)
    simp [made, unread]
  have dangling : (Graph.labels ⟨inputCount, nodes⟩).find? (fun label =>
      !final.consumed.contains label && !terminals.contains label) = none := by
    rw [List.find?_eq_none]
    intro label member
    have made : label ∈ final.produced := by
      simpa using complete.mem_iff.mpr (List.mem_append_right [] member)
    by_cases read : label ∈ final.consumed
    · simp [read]
    · have live := (left label).mp ((follows.live label).mpr ⟨made, read⟩)
      simp [live]
  simp only [Graph.validate, run, terminal, dangling]

end Montage.Proofs.FilterWiring
