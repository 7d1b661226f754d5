import Montage.Proofs.FilterClosure
import Montage.Proofs.FilterLabels

/-! Renaming an output of a graph. One output gets the new name and nothing else is changed. If the output is a terminal
of a graph that the check accepts, and no output has the new name so far, then the check accepts the graph as before. -/

namespace Montage.Proofs.FilterRenaming
open Montage.Filter FilterWiring FilterClosure FilterLabels

/-- The first output of a name, in the last node that has one, gets another name. -/
inductive Renames (old new : String) : List Node → List Node → Prop where
  | output {front back : List Node} {inputs : List Pad} {filters : List Filter} {before after : List String}
      (first : old ∉ before) (last : old ∉ written back) :
      Renames old new (front ++ ⟨inputs, filters, before ++ old :: after⟩ :: back)
        (front ++ ⟨inputs, filters, before ++ new :: after⟩ :: back)

def renamed (old new label : String) : String :=
  if label = old then new else label

variable {old new : String}

private theorem renamed_old : renamed old new old = new :=
  if_pos rfl

theorem renamed_other {label : String} (other : label ≠ old) : renamed old new label = label :=
  if_neg other

/-- Labels that the new name is not one of stay apart. -/
private theorem renamed_injective {first second : String} (one : first ≠ new) (two : second ≠ new)
    (same : renamed old new first = renamed old new second) : first = second := by
  unfold renamed at same
  split at same
  next first_old =>
    split at same
    next second_old => exact first_old.trans second_old.symm
    next => exact absurd same.symm two
  next =>
    split at same
    next => exact absurd same one
    next => exact same

theorem map_renamed {labels : List String} (absent : old ∉ labels) : labels.map (renamed old new) = labels := by
  have stays : ∀ label ∈ labels, renamed old new label = id label := fun label member =>
    renamed_other fun same => absent (same ▸ member)
  rw [List.map_congr_left stays, List.map_id]

private theorem mem_consumed {nodes : List Node} {label : String} :
    label ∈ consumed nodes ↔ ∃ node ∈ nodes, .label label ∈ node.inputs := by
  have reads (pad : Pad) : labelOf pad = some label ↔ pad = .label label := by
    cases pad <;> simp [labelOf]
  simp [consumed, reads]

/-- What is consumed in a closed graph is produced in it. -/
private theorem written_of_consumed {graph : Graph} {terminals : List String} (closed : Closed graph terminals)
    {label : String} (member : label ∈ consumed graph.nodes) : label ∈ written graph.nodes := by
  obtain ⟨node, present, reads⟩ := mem_consumed.mp member
  obtain ⟨position, inside, rfl⟩ := List.mem_iff_getElem.mp present
  obtain ⟨producer, before, produces⟩ := closed.ordered position inside label reads
  exact List.mem_flatMap.mpr ⟨producer, List.mem_of_mem_take before, produces⟩

theorem relabelLast_none_iff {nodes : List Node} : relabelLast old new nodes = none ↔ old ∉ written nodes := by
  induction nodes with
  | nil => simp [relabelLast, written]
  | cons node rest ih =>
    have parts : written (node :: rest) = node.outputs ++ written rest := List.flatMap_cons
    rw [parts, List.mem_append, not_or, ← ih, relabelLast]
    cases relabelLast old new rest with
    | some relabelled => simp
    | none => simp

private theorem relabel_first {inputs : List Pad} {filters : List Filter} {before after : List String}
    (first : old ∉ before) :
    Node.relabel ⟨inputs, filters, before ++ old :: after⟩ old new = ⟨inputs, filters, before ++ new :: after⟩ := by
  simp [Node.relabel, List.replace_append_right first]

private theorem relabelLast_renames {nodes later : List Node} (found : relabelLast old new nodes = some later) :
    Renames old new nodes later := by
  induction nodes generalizing later with
  | nil => cases found
  | cons node rest ih =>
    rw [relabelLast] at found
    split at found
    next relabelled same =>
      cases found
      obtain @⟨front, back, inputs, filters, before, after, first, last⟩ := ih same
      exact @Renames.output old new (node :: front) back inputs filters before after first last
    next missing =>
      split at found
      next holds =>
        cases found
        obtain ⟨inputs, filters, outputs⟩ := node
        obtain ⟨before, after, same, first⟩ := List.eq_append_cons_of_mem (List.contains_iff_mem.mp holds)
        change outputs = before ++ old :: after at same
        subst same
        rw [relabel_first first]
        exact @Renames.output old new [] rest inputs filters before after first (relabelLast_none_iff.mp missing)
      next => cases found

namespace Renames
variable {nodes later : List Node} (renames : Renames old new nodes later)
include renames

theorem bodies : later.map body = nodes.map body := by
  cases renames
  simp [body]

theorem consumed_eq : consumed later = consumed nodes := by
  cases renames
  simp [consumed]

theorem kept {label : String} (member : label ∈ written nodes) (other : label ≠ old) : label ∈ written later := by
  cases renames
  simp only [written, List.flatMap_append, List.flatMap_cons, List.mem_append, List.mem_cons, other, false_or]
    at member ⊢
  exact member.imp_right fun inner => inner.imp_left fun here => here.imp_right .inr

/-- The nodes before any place are as they were, but for the output with the new name if its node is one of them. -/
theorem take (position : Nat) :
    later.take position = nodes.take position ∨ Renames old new (nodes.take position) (later.take position) := by
  obtain @⟨front, back, inputs, filters, before, after, first, last⟩ := renames
  obtain early | late := Nat.lt_or_ge front.length position
  · obtain ⟨rest, rfl⟩ := Nat.exists_eq_add_of_lt early
    have last : old ∉ written (back.take rest) := by
      rw [← List.take_append_drop rest back, written_append, List.mem_append, not_or] at last
      exact last.1
    refine .inr ?_
    simp only [Nat.add_assoc, List.take_length_add_append, List.take_succ_cons]
    exact .output first last
  · exact .inl (by simp only [List.take_append_of_le_length late])

theorem written_eq (once : (written nodes).Nodup) : written later = (written nodes).map (renamed old new) := by
  obtain @⟨front, back, inputs, filters, before, after, first, last⟩ := renames
  have parts (label : String) : written (front ++ ⟨inputs, filters, before ++ label :: after⟩ :: back) =
      written front ++ (before ++ label :: (after ++ written back)) := by
    simp [written]
  rw [parts old] at once ⊢
  obtain ⟨-, rest_once, apart⟩ := List.nodup_append.mp once
  have in_front : old ∉ written front := fun member => apart old member old (by simp) rfl
  have behind : old ∉ after ++ written back := (List.nodup_cons.mp (List.nodup_append.mp rest_once).2.1).1
  rw [parts new, List.map_append, List.map_append, List.map_cons, renamed_old, map_renamed in_front,
    map_renamed first, map_renamed behind]

theorem same_length : later.length = nodes.length := by
  simpa using congrArg List.length renames.bodies

theorem same_body {node : Node} (member : node ∈ later) : ∃ other ∈ nodes, body other = body node := by
  have inside := List.mem_map_of_mem (f := body) member
  rwa [renames.bodies, List.mem_map] at inside

theorem same_inputs {position : Nat} (inside : position < later.length) (within : position < nodes.length) :
    later[position].inputs = nodes[position].inputs := by
  have same : (later.map body)[position]? = (nodes.map body)[position]? := by rw [renames.bodies]
  rw [List.getElem?_map, List.getElem?_map, List.getElem?_eq_getElem inside, List.getElem?_eq_getElem within] at same
  exact congrArg Prod.fst (Option.some.inj same)

theorem closed {inputCount : Nat} {terminals : List String} (closed : Closed ⟨inputCount, nodes⟩ terminals)
    (terminal : old ∈ terminals) (fresh : new ∉ written nodes) :
    Closed ⟨inputCount, later⟩ (terminals.map (renamed old new)) := by
  have read_other : ∀ label ∈ consumed nodes, label ≠ old := fun label reads same =>
    (closed.leftOver old terminal).2 (same ▸ reads)
  have unread : new ∉ consumed nodes := fun reads => fresh (written_of_consumed closed reads)
  have apart : ∀ label ∈ written nodes, label ≠ new := fun label produced same => fresh (same ▸ produced)
  refine ⟨?filtered, ?supplied, ?ordered, ?consumedOnce, ?producedOnce, ?leftOver, ?used⟩
  case filtered =>
    intro node member
    obtain ⟨other, present, same⟩ := renames.same_body member
    have filters : other.filters = node.filters := congrArg Prod.snd same
    exact filters ▸ closed.filtered other present
  case supplied =>
    intro node member index stream reads
    obtain ⟨other, present, same⟩ := renames.same_body member
    have inputs : other.inputs = node.inputs := congrArg Prod.fst same
    exact closed.supplied other present index stream (inputs ▸ reads)
  case ordered =>
    intro position inside name reads
    have within : position < nodes.length := renames.same_length ▸ inside
    rw [renames.same_inputs inside within] at reads
    obtain ⟨node, before, produces⟩ := closed.ordered position within name reads
    obtain same | renames := renames.take position
    · exact ⟨node, same ▸ before, produces⟩
    · have other := read_other name (mem_consumed.mpr ⟨nodes[position], List.getElem_mem within, reads⟩)
      exact List.mem_flatMap.mp (renames.kept (List.mem_flatMap.mpr ⟨node, before, produces⟩) other)
  case consumedOnce =>
    rw [renames.consumed_eq]
    exact closed.consumedOnce
  case producedOnce =>
    rw [renames.written_eq closed.producedOnce, List.Nodup, List.pairwise_map]
    apply closed.producedOnce.imp_of_mem
    intro first second one two different same
    exact different (renamed_injective (apart first one) (apart second two) same)
  case leftOver =>
    intro label member
    obtain ⟨source, known, rfl⟩ := List.mem_map.mp member
    obtain ⟨produced, source_unread⟩ := closed.leftOver source known
    rw [renames.written_eq closed.producedOnce, renames.consumed_eq]
    refine ⟨List.mem_map_of_mem produced, ?_⟩
    by_cases same : source = old
    · rwa [same, renamed_old]
    · rwa [renamed_other same]
  case used =>
    intro label member
    rw [renames.written_eq closed.producedOnce] at member
    obtain ⟨source, produced, rfl⟩ := List.mem_map.mp member
    rw [renames.consumed_eq]
    obtain reads | known := closed.used source produced
    · exact .inl ((renamed_other (read_other source reads)).symm ▸ reads)
    · exact .inr (List.mem_map_of_mem known)

end Renames

theorem validate_iff {graph : Graph} {terminals : List String} :
    graph.validate terminals = .ok () ↔ Closed graph terminals := by
  have outcome : Outcome _ _ (graph.validate terminals) := validate_outcome
  cases result : graph.validate terminals with
  | ok _ =>
    rw [result] at outcome
    exact iff_of_true rfl outcome
  | error fault =>
    rw [result] at outcome
    exact iff_of_false (by simp) (not_closed outcome)

private theorem relabelOutput_missing {graph : Graph} (absent : old ∉ graph.labels) :
    graph.relabelOutput old new = (graph, false) := by
  rw [Graph.relabelOutput, relabelLast_none_iff.mpr absent]

theorem relabelOutput_present {graph : Graph} (new : String) (present : old ∈ graph.labels) :
    ∃ nodes, graph.relabelOutput old new = ({ graph with nodes }, true) ∧ Renames old new graph.nodes nodes := by
  cases found : relabelLast old new graph.nodes with
  | none => exact absurd present (relabelLast_none_iff.mp found)
  | some nodes =>
    refine ⟨nodes, ?_, relabelLast_renames found⟩
    rw [Graph.relabelOutput, found]

/-- A terminal of a graph that the check accepts is renamed to a name that no output has: one output changes, and the
check accepts what comes of it with the terminal renamed likewise. In any graph, one output changes if there is one of
that name, and nothing changes otherwise. -/
theorem relabelOutput_keeps (graph : Graph) (old new : String) :
    (∀ terminals, graph.validate terminals = .ok () → old ∈ terminals → new ∉ graph.labels →
      ∃ nodes, graph.relabelOutput old new = ({ graph with nodes }, true) ∧ Renames old new graph.nodes nodes ∧
        Graph.validate { graph with nodes } (terminals.map (renamed old new)) = .ok ()) ∧
    (graph.relabelOutput old new = (graph, false) ↔ old ∉ graph.labels) ∧
    (old ∈ graph.labels →
      ∃ nodes, graph.relabelOutput old new = ({ graph with nodes }, true) ∧ Renames old new graph.nodes nodes) := by
  refine ⟨?kept, ⟨?found, relabelOutput_missing⟩, relabelOutput_present new⟩
  case kept =>
    intro terminals accepts terminal fresh
    have closed := validate_iff.mp accepts
    obtain ⟨nodes, result, renames⟩ := relabelOutput_present new (closed.leftOver old terminal).1
    exact ⟨nodes, result, renames, validate_iff.mpr (renames.closed closed terminal fresh)⟩
  case found =>
    intro result present
    obtain ⟨nodes, other, -⟩ := relabelOutput_present new present
    exact Bool.false_ne_true (congrArg Prod.snd (result.symm.trans other))

def fork : Graph :=
  ⟨1, [⟨[.input 0 .video], [.split], ["aside", "spare"]⟩, .chain (.label "spare") [.verbatim "null"] "shown"]⟩

theorem fork_keeps : fork.validate ["aside", "shown"] = .ok () ∧ "aside" ∈ ["aside", "shown"] ∧
    "kept" ∉ fork.labels ∧ ∃ nodes, fork.relabelOutput "aside" "kept" = (⟨1, nodes⟩, true) ∧
      Renames "aside" "kept" fork.nodes nodes ∧ Graph.validate ⟨1, nodes⟩ ["kept", "shown"] = .ok () :=
  ⟨rfl, by decide, by decide,
    (relabelOutput_keeps fork "aside" "kept").1 ["aside", "shown"] rfl (by decide) (by decide)⟩

end Montage.Proofs.FilterRenaming
