import Montage.Filter.Basic

/-! Graphs of filters. A graph is a list of nodes over a number of input files; nodes are wired by
labels, each of which is produced once, before it is consumed, and consumed once. -/

namespace Montage.Filter

inductive Stream where
  | video
  | sound
  deriving DecidableEq, Repr

/-- Where a node reads from. -/
inductive Pad where
  /-- A stream of an input file. -/
  | input (index : Nat) (stream : Stream)
  /-- The output of an earlier node. -/
  | label (name : String)
  deriving DecidableEq, Repr

/-- A chain of filters with its inputs and outputs. -/
structure Node where
  inputs : List Pad
  filters : List Filter
  outputs : List String
  deriving DecidableEq

structure Graph where
  inputCount : Nat
  nodes : List Node := []
  deriving DecidableEq

/-- How the wiring of a graph may be wrong. -/
inductive GraphFault where
  | unknownInput (index inputCount : Nat)
  | undefinedLabel (label : String)
  | duplicateLabel (label : String)
  | consumedTwice (label : String)
  | unconsumed (label : String)
  | missingOutput (label : String)
  | emptyNode
  deriving DecidableEq, Repr

def GraphFault.message : GraphFault → String
  | unknownInput index inputCount =>
    "input #" ++ toString index ++ " does not exist (" ++ toString inputCount ++ " inputs)"
  | undefinedLabel label => "label [" ++ label ++ "] is consumed before it is produced"
  | duplicateLabel label => "label [" ++ label ++ "] is produced more than once"
  | consumedTwice label => "label [" ++ label ++ "] is consumed more than once"
  | unconsumed label => "label [" ++ label ++ "] is produced but never consumed"
  | missingOutput label => "output label [" ++ label ++ "] is not produced by the graph"
  | emptyNode => "node has no filters"

/-- A text in brackets, as pads and labels are written. -/
def bracketed (text : String) : String :=
  "[" ++ text ++ "]"

def Pad.text : Pad → String
  | input index .video => bracketed (toString index ++ ":v")
  | input index .sound => bracketed (toString index ++ ":a")
  | label name => bracketed name

namespace Node

def chain (input : Pad) (filters : List Filter) (output : String) : Node :=
  ⟨[input], filters, [output]⟩

def text (node : Node) : String :=
  String.join (node.inputs.map Pad.text) ++ ",".intercalate (node.filters.map Filter.text) ++
    String.join (node.outputs.map bracketed)

def uses (node : Node) (name : String) : Bool :=
  node.filters.any fun filter => filter.name = name

def relabel (node : Node) (old new : String) : Node :=
  { node with outputs := node.outputs.replace old new }

end Node

/-- Renames an output of the last node that has it, if there is one. -/
def relabelLast (old new : String) : List Node → Option (List Node)
  | [] => none
  | node :: rest =>
    match relabelLast old new rest with
    | some relabelled => some (node :: relabelled)
    | none => if node.outputs.contains old then some (node.relabel old new :: rest) else none

/-- The labels produced and consumed so far. -/
structure Wiring where
  produced : List String := []
  consumed : List String := []

def Wiring.consume (inputCount : Nat) (wiring : Wiring) : List Pad → Except GraphFault Wiring
  | [] => .ok wiring
  | .input index _ :: rest =>
    if index < inputCount then wiring.consume inputCount rest
    else .error (.unknownInput index inputCount)
  | .label name :: rest =>
    if !wiring.produced.contains name then .error (.undefinedLabel name)
    else if wiring.consumed.contains name then .error (.consumedTwice name)
    else consume inputCount { wiring with consumed := name :: wiring.consumed } rest

def Wiring.produce (wiring : Wiring) : List String → Except GraphFault Wiring
  | [] => .ok wiring
  | name :: rest =>
    if wiring.produced.contains name then .error (.duplicateLabel name)
    else produce { wiring with produced := name :: wiring.produced } rest

def Wiring.run (inputCount : Nat) (wiring : Wiring) : List Node → Except GraphFault Wiring
  | [] => .ok wiring
  | node :: rest =>
    if node.filters.isEmpty then .error .emptyNode
    else match wiring.consume inputCount node.inputs with
      | .error fault => .error fault
      | .ok consumed =>
        match consumed.produce node.outputs with
        | .error fault => .error fault
        | .ok produced => produced.run inputCount rest

namespace Graph

def push (graph : Graph) (node : Node) : Graph :=
  { graph with nodes := graph.nodes ++ [node] }

/-- Renames an output of the last node that has it. The flag says whether there was one. -/
def relabelOutput (graph : Graph) (old new : String) : Graph × Bool :=
  match relabelLast old new graph.nodes with
  | some nodes => ({ graph with nodes }, true)
  | none => (graph, false)

def count (graph : Graph) (name : String) : Nat :=
  graph.nodes.countP (·.uses name)

def labels (graph : Graph) : List String :=
  graph.nodes.flatMap Node.outputs

/-- Checks the wiring: every node has a filter, inputs exist, a label is produced once and before it
is consumed, and consumed once, unless it is one of the terminals, which are produced and not
consumed. -/
def validate (graph : Graph) (terminals : List String) : Except GraphFault Unit :=
  match Wiring.run graph.inputCount {} graph.nodes with
  | .error fault => .error fault
  | .ok wiring =>
    match terminals.find? fun terminal =>
        !wiring.produced.contains terminal || wiring.consumed.contains terminal with
    | some terminal => .error (.missingOutput terminal)
    | none =>
      match graph.labels.find? fun label =>
          !wiring.consumed.contains label && !terminals.contains label with
      | some label => .error (.unconsumed label)
      | none => .ok ()

def text (graph : Graph) : String :=
  ";".intercalate (graph.nodes.map Node.text)

/-- The graph as it is written, if its wiring is right. -/
def serialize (graph : Graph) (terminals : List String) : Except GraphFault String :=
  (graph.validate terminals).map fun _ => graph.text

end Graph

end Montage.Filter
