import Montage.Proofs.FilterWiring

/-! What the check of a graph decides. A graph is closed under its labels if each of them is produced once, consumed
at most once and after it was produced, and left over exactly if it is a terminal. The check accepts the closed graphs,
and of any other it reports a fault that the graph has. -/

namespace Montage.Proofs.FilterClosure
open Montage.Filter FilterWiring

def labelOf : Pad → Option String
  | .input .. => none
  | .label name => some name

def consumed (nodes : List Node) : List String :=
  nodes.flatMap fun node => node.inputs.filterMap labelOf

/-- The labels of a graph are wired as they have to be. -/
structure Closed (graph : Graph) (terminals : List String) : Prop where
  filtered : ∀ node ∈ graph.nodes, node.filters ≠ []
  supplied : ∀ node ∈ graph.nodes, ∀ index stream, .input index stream ∈ node.inputs → index < graph.inputCount
  /-- A label is consumed after a node before has produced it. -/
  ordered : ∀ position (inside : position < graph.nodes.length) name, .label name ∈ graph.nodes[position].inputs →
    ∃ node ∈ graph.nodes.take position, name ∈ node.outputs
  consumedOnce : (consumed graph.nodes).Nodup
  producedOnce : (written graph.nodes).Nodup
  leftOver : ∀ label ∈ terminals, label ∈ written graph.nodes ∧ label ∉ consumed graph.nodes
  used : ∀ label ∈ written graph.nodes, label ∈ consumed graph.nodes ∨ label ∈ terminals

/-- A graph has a fault. A terminal that a node consumes is missing as much as one that no node produces. -/
inductive Faulty (graph : Graph) (terminals : List String) : GraphFault → Prop where
  | unknownInput {node : Node} {index : Nat} {stream : Stream} (member : node ∈ graph.nodes)
      (reads : .input index stream ∈ node.inputs) (unknown : graph.inputCount ≤ index) :
      Faulty graph terminals (.unknownInput index graph.inputCount)
  | undefinedLabel {position : Nat} {label : String} (inside : position < graph.nodes.length)
      (reads : .label label ∈ graph.nodes[position].inputs)
      (undefined : ∀ node ∈ graph.nodes.take position, label ∉ node.outputs) :
      Faulty graph terminals (.undefinedLabel label)
  | duplicateLabel {label : String} (twice : 2 ≤ (written graph.nodes).count label) :
      Faulty graph terminals (.duplicateLabel label)
  | consumedTwice {label : String} (twice : 2 ≤ (consumed graph.nodes).count label) :
      Faulty graph terminals (.consumedTwice label)
  | unconsumed {label : String} (produced : label ∈ written graph.nodes) (unread : label ∉ consumed graph.nodes)
      (inner : label ∉ terminals) : Faulty graph terminals (.unconsumed label)
  | missingOutput {label : String} (terminal : label ∈ terminals)
      (missing : label ∉ written graph.nodes ∨ label ∈ consumed graph.nodes) :
      Faulty graph terminals (.missingOutput label)
  | emptyNode {node : Node} (member : node ∈ graph.nodes) (empty : node.filters = []) :
      Faulty graph terminals .emptyNode

theorem not_closed {graph : Graph} {terminals : List String} {fault : GraphFault}
    (faulty : Faulty graph terminals fault) : ¬Closed graph terminals := by
  intro closed
  cases faulty with
  | unknownInput member reads unknown => exact Nat.not_lt_of_le unknown (closed.supplied _ member _ _ reads)
  | undefinedLabel inside reads undefined =>
    obtain ⟨node, before, produces⟩ := closed.ordered _ inside _ reads
    exact undefined node before produces
  | duplicateLabel twice => exact Nat.not_le_of_lt twice (List.nodup_iff_count.mp closed.producedOnce _)
  | consumedTwice twice => exact Nat.not_le_of_lt twice (List.nodup_iff_count.mp closed.consumedOnce _)
  | unconsumed produced unread inner => exact (closed.used _ produced).elim unread inner
  | missingOutput terminal missing =>
    obtain ⟨produced, unread⟩ := closed.leftOver _ terminal
    exact missing.elim (· produced) unread
  | emptyNode member empty => exact closed.filtered _ member empty

/-- One thing holds of what a check accepts, and another of the fault that it stops at. -/
def Outcome {α : Type} (accepted : α → Prop) (stopped : GraphFault → Prop) : Except GraphFault α → Prop
  | .ok value => accepted value
  | .error fault => stopped fault

theorem Outcome.weaken {α : Type} {accepted other : α → Prop} {stopped blocked : GraphFault → Prop}
    {result : Except GraphFault α} (outcome : Outcome accepted stopped result)
    (accepts : ∀ value, accepted value → other value) (stops : ∀ fault, stopped fault → blocked fault) :
    Outcome other blocked result := by
  cases result with
  | ok value => exact accepts value outcome
  | error fault => exact stops fault outcome

structure Consumes (inputCount : Nat) (wiring : Wiring) (pads : List Pad) (next : Wiring) : Prop where
  produced : next.produced = wiring.produced
  consumed : next.consumed.Perm (wiring.consumed ++ pads.filterMap labelOf)
  supplied : ∀ index stream, .input index stream ∈ pads → index < inputCount
  known : ∀ name, .label name ∈ pads → name ∈ wiring.produced
  once : wiring.consumed.Nodup → next.consumed.Nodup

/-- A pad of a node is not there, or a label is consumed for a second time. -/
inductive Lacks (inputCount : Nat) (wiring : Wiring) (pads : List Pad) : GraphFault → Prop where
  | unknownInput {index : Nat} {stream : Stream} (reads : .input index stream ∈ pads) (unknown : inputCount ≤ index) :
      Lacks inputCount wiring pads (.unknownInput index inputCount)
  | undefinedLabel {label : String} (reads : .label label ∈ pads) (undefined : label ∉ wiring.produced) :
      Lacks inputCount wiring pads (.undefinedLabel label)
  | consumedTwice {label : String} (twice : 2 ≤ (wiring.consumed ++ pads.filterMap labelOf).count label) :
      Lacks inputCount wiring pads (.consumedTwice label)

theorem Lacks.earlier {inputCount : Nat} {wiring next : Wiring} {pad : Pad} {rest : List Pad} {fault : GraphFault}
    (lacks : Lacks inputCount next rest fault) (produced : next.produced = wiring.produced)
    (consumed : (next.consumed ++ rest.filterMap labelOf).Perm (wiring.consumed ++ (pad :: rest).filterMap labelOf)) :
    Lacks inputCount wiring (pad :: rest) fault := by
  cases lacks with
  | unknownInput reads unknown => exact .unknownInput (List.mem_cons_of_mem _ reads) unknown
  | undefinedLabel reads undefined => exact .undefinedLabel (List.mem_cons_of_mem _ reads) (produced ▸ undefined)
  | consumedTwice twice => exact .consumedTwice (consumed.count_eq _ ▸ twice)

private theorem consume_outcome (inputCount : Nat) (wiring : Wiring) (pads : List Pad) :
    Outcome (Consumes inputCount wiring pads) (Lacks inputCount wiring pads) (wiring.consume inputCount pads) := by
  fun_induction Wiring.consume inputCount wiring pads with
  | case1 wiring => exact ⟨rfl, by simp, by simp, by simp, id⟩
  | case2 wiring index stream rest known ih =>
    refine ih.weaken (fun next consumes => ?_) fun fault lacks => lacks.earlier rfl (.refl _)
    refine ⟨consumes.produced, consumes.consumed, ?_, by simpa using consumes.known, consumes.once⟩
    intro other kind member
    obtain same | later := List.mem_cons.mp member
    · cases same
      exact known
    · exact consumes.supplied other kind later
  | case3 wiring index stream rest unknown => exact .unknownInput List.mem_cons_self (Nat.le_of_not_lt unknown)
  | case4 wiring name rest undefined => exact .undefinedLabel List.mem_cons_self (by simpa using undefined)
  | case5 wiring name rest defined twice =>
    have before : 0 < wiring.consumed.count name := List.count_pos_iff.mpr (by simpa using twice)
    have again : 2 ≤ (wiring.consumed ++ (Pad.label name :: rest).filterMap labelOf).count name := by
      simp only [List.count_append, List.filterMap_cons, labelOf, List.count_cons_self]
      omega
    exact .consumedTwice again
  | case6 wiring name rest defined fresh ih =>
    have moved : (name :: wiring.consumed ++ rest.filterMap labelOf).Perm
        (wiring.consumed ++ (.label name :: rest).filterMap labelOf) := List.perm_middle.symm
    refine ih.weaken (fun next consumes => ?_) fun fault lacks => lacks.earlier rfl moved
    refine ⟨consumes.produced, consumes.consumed.trans moved, by simpa using consumes.supplied, ?_, fun once => ?_⟩
    · intro other member
      obtain same | later := List.mem_cons.mp member
      · cases same
        simpa using defined
      · exact consumes.known other later
    · exact consumes.once (List.nodup_cons.mpr ⟨by simpa using fresh, once⟩)

structure Produces (wiring : Wiring) (labels : List String) (next : Wiring) : Prop where
  consumed : next.consumed = wiring.consumed
  produced : next.produced.Perm (wiring.produced ++ labels)
  once : wiring.produced.Nodup → next.produced.Nodup

/-- A label is produced for a second time. -/
inductive Repeats (wiring : Wiring) (labels : List String) : GraphFault → Prop where
  | duplicateLabel {label : String} (twice : 2 ≤ (wiring.produced ++ labels).count label) :
      Repeats wiring labels (.duplicateLabel label)

private theorem produce_outcome (wiring : Wiring) (labels : List String) :
    Outcome (Produces wiring labels) (Repeats wiring labels) (wiring.produce labels) := by
  fun_induction Wiring.produce wiring labels with
  | case1 wiring => exact ⟨rfl, by simp, id⟩
  | case2 wiring name rest twice =>
    have before : 0 < wiring.produced.count name := List.count_pos_iff.mpr (by simpa using twice)
    have again : 2 ≤ (wiring.produced ++ name :: rest).count name := by
      simp only [List.count_append, List.count_cons_self]
      omega
    exact .duplicateLabel again
  | case3 wiring name rest fresh ih =>
    have moved : (name :: wiring.produced ++ rest).Perm (wiring.produced ++ name :: rest) := List.perm_middle.symm
    refine ih.weaken (fun next produces => ?_) fun fault repeats => ?_
    · refine ⟨produces.consumed, produces.produced.trans moved, fun once => ?_⟩
      exact produces.once (List.nodup_cons.mpr ⟨by simpa using fresh, once⟩)
    · obtain ⟨twice⟩ := repeats
      exact .duplicateLabel (moved.count_eq _ ▸ twice)

/-- What is known once the check has passed nodes. -/
structure Passed (inputCount : Nat) (nodes : List Node) (wiring : Wiring) : Prop where
  filtered : ∀ node ∈ nodes, node.filters ≠ []
  supplied : ∀ node ∈ nodes, ∀ index stream, .input index stream ∈ node.inputs → index < inputCount
  ordered : ∀ position (inside : position < nodes.length) name, .label name ∈ nodes[position].inputs →
    ∃ node ∈ nodes.take position, name ∈ node.outputs
  consumed : wiring.consumed.Perm (consumed nodes)
  produced : wiring.produced.Perm (written nodes)
  consumedOnce : wiring.consumed.Nodup
  producedOnce : wiring.produced.Nodup

@[simp] theorem consumed_append (front back : List Node) : consumed (front ++ back) = consumed front ++ consumed back :=
  List.flatMap_append

theorem Passed.node {inputCount : Nat} {nodes : List Node} {node : Node} {wiring taken next : Wiring}
    (passed : Passed inputCount nodes wiring) (filtered : node.filters ≠ [])
    (consumes : Consumes inputCount wiring node.inputs taken) (produces : Produces taken node.outputs next) :
    Passed inputCount (nodes ++ [node]) next := by
  refine ⟨?_, ?_, ?_, ?_, ?_, ?_, ?_⟩
  · simpa [or_imp, forall_and] using ⟨passed.filtered, filtered⟩
  · simpa [or_imp, forall_and] using ⟨passed.supplied, consumes.supplied⟩
  · intro position inside name reads
    obtain earlier | last := Nat.lt_or_ge position nodes.length
    · rw [List.getElem_append_left earlier] at reads
      rw [List.take_append_of_le_length (Nat.le_of_lt earlier)]
      exact passed.ordered position earlier name reads
    · obtain rfl : position = nodes.length := by
        simp only [List.length_append, List.length_singleton] at inside
        omega
      rw [List.getElem_concat_length rfl] at reads
      rw [List.take_left]
      have known := passed.produced.mem_iff.mp (consumes.known name reads)
      simpa [written] using known
  · rw [produces.consumed, consumed_append]
    refine (consumes.consumed.trans (passed.consumed.append_right _)).trans ?_
    simp [FilterClosure.consumed]
  · rw [written_append]
    refine (produces.produced.trans ?_)
    rw [consumes.produced]
    simpa [written] using passed.produced.append_right _
  · rw [produces.consumed]
    exact consumes.once passed.consumedOnce
  · exact produces.once (consumes.produced ▸ passed.producedOnce)

section Whole
variable {graph : Graph} {terminals : List String} {front rest : List Node} {node : Node}
  (split : graph.nodes = front ++ node :: rest) {wiring : Wiring}
include split

theorem Lacks.faulty (passed : Passed graph.inputCount front wiring) {fault : GraphFault}
    (lacks : Lacks graph.inputCount wiring node.inputs fault) : Faulty graph terminals fault := by
  cases lacks with
  | unknownInput reads unknown =>
    have member : node ∈ graph.nodes := by simp [split]
    exact .unknownInput member reads unknown
  | undefinedLabel reads undefined =>
    have inside : front.length < graph.nodes.length := by simp [split]
    refine .undefinedLabel inside (by simpa [split] using reads) ?_
    intro other before produces
    rw [split, List.take_left] at before
    exact undefined (passed.produced.mem_iff.mpr (List.mem_flatMap.mpr ⟨other, before, produces⟩))
  | @consumedTwice label twice =>
    have here := (passed.consumed.append_right (node.inputs.filterMap labelOf)).count_eq label
    have again : 2 ≤ (FilterClosure.consumed graph.nodes).count label := by
      rw [split, consumed_append]
      simp only [List.count_append, consumed, List.flatMap_cons] at here twice ⊢
      omega
    exact .consumedTwice again

theorem Repeats.faulty (produced : wiring.produced.Perm (written front)) {fault : GraphFault}
    (repeats : Repeats wiring node.outputs fault) : Faulty graph terminals fault := by
  obtain @⟨label, twice⟩ := repeats
  have here := (produced.append_right node.outputs).count_eq label
  have again : 2 ≤ (written graph.nodes).count label := by
    rw [split, written_append]
    simp only [List.count_append, written, List.flatMap_cons] at here twice ⊢
    omega
  exact .duplicateLabel again

end Whole

section Check
variable {graph : Graph} {terminals : List String}

private theorem run_outcome {front back : List Node} (split : graph.nodes = front ++ back) {wiring : Wiring}
    (passed : Passed graph.inputCount front wiring) :
    Outcome (Passed graph.inputCount graph.nodes) (Faulty graph terminals) (wiring.run graph.inputCount back) := by
  -- The induction is on the nodes still to come; `Passed` says what is known of those in front.
  induction back generalizing front wiring with
  | nil =>
    rw [split, List.append_nil]
    exact passed
  | cons node rest ih =>
    unfold Wiring.run
    split
    next empty =>
      have member : node ∈ graph.nodes := by simp [split]
      exact .emptyNode member (by simpa using empty)
    next filtered =>
      have taking := consume_outcome graph.inputCount wiring node.inputs
      split
      next fault stopped =>
        rw [stopped] at taking
        exact taking.faulty split passed
      next taken consumes =>
        rw [consumes] at taking
        have making := produce_outcome taken node.outputs
        split
        next fault stopped =>
          rw [stopped] at making
          exact making.faulty split (taking.produced ▸ passed.produced)
        next next produces =>
          rw [produces] at making
          exact ih (by simpa using split) (passed.node (by simpa using filtered) taking making)

theorem validate_outcome :
    Outcome (fun _ => Closed graph terminals) (Faulty graph terminals) (graph.validate terminals) := by
  have start : Passed graph.inputCount [] {} := ⟨by simp, by simp, by simp, .refl _, .refl _, by simp, by simp⟩
  have run : Outcome _ (Faulty graph terminals) _ := run_outcome (List.nil_append graph.nodes).symm start
  unfold Graph.validate
  split
  next fault stopped =>
    rw [stopped] at run
    exact run
  next wiring passes =>
    rw [passes] at run
    have produced (label : String) := run.produced.mem_iff (a := label)
    have consumed (label : String) := run.consumed.mem_iff (a := label)
    split
    next terminal found =>
      have missing := List.find?_some found
      refine .missingOutput (List.mem_of_find?_eq_some found) ?_
      simpa [produced, consumed] using missing
    next none =>
      have present := List.find?_eq_none.mp none
      split
      next label found =>
        have loose := List.find?_some found
        simp only [Bool.and_eq_true, Bool.not_eq_true', List.contains_eq_mem, decide_eq_false_iff_not,
          consumed] at loose
        exact .unconsumed (List.mem_of_find?_eq_some found) loose.1 loose.2
      next none =>
        have used := List.find?_eq_none.mp none
        refine ⟨run.filtered, run.supplied, run.ordered, run.consumed.nodup run.consumedOnce,
          run.produced.nodup run.producedOnce, fun label terminal => ?_, fun label made => ?_⟩
        · simpa [produced, consumed] using present label terminal
        · have held := used label made
          simp only [Bool.and_eq_true, Bool.not_eq_true', List.contains_eq_mem, decide_eq_false_iff_not,
            consumed, not_and, Decidable.not_not] at held
          exact Decidable.or_iff_not_imp_left.mpr held

end Check

/-- The check accepts exactly the graphs that are closed, and the fault it reports of another is one that the graph
has. -/
theorem validate_exact (graph : Graph) (terminals : List String) :
    (graph.validate terminals = .ok () ↔ Closed graph terminals) ∧
      ∀ fault, graph.validate terminals = .error fault → Faulty graph terminals fault := by
  have outcome : Outcome _ _ (graph.validate terminals) := validate_outcome
  refine ⟨⟨fun accepts => ?_, fun closed => ?_⟩, fun fault stops => ?_⟩
  · rw [accepts] at outcome
    exact outcome
  · cases result : graph.validate terminals with
    | ok _ => rfl
    | error fault =>
      rw [result] at outcome
      exact absurd closed (not_closed outcome)
  · rw [stops] at outcome
    exact outcome

def relay : Graph :=
  ⟨1, [.chain (.input 0 .video) [.verbatim "null"] "first", .chain (.label "first") [.verbatim "null"] "second"]⟩

theorem relay_misses_output : relay.validate ["second", "first"] = .error (.missingOutput "first") ∧
    Faulty relay ["second", "first"] (.missingOutput "first") :=
  ⟨rfl, (validate_exact relay ["second", "first"]).2 _ rfl⟩

end Montage.Proofs.FilterClosure
