import Montage.Proofs.FilterContents
import Montage.Proofs.FilterGrammar
import Montage.Proofs.NumberText

/-! Compiled filters are read back from their text. Numbers, labels and options hold no sign that the
notation gives a meaning to, and the path of subtitles keeps its signs inside quotes. -/

namespace Montage.Proofs.FilterNotation
open Montage.Filter FilterEffects FilterWiring FilterIntent FilterCompile FilterGrammar FilterContents NumberText

private theorem scan_ordinary {text : List Char} (plain : Ordinary text) : scan .bare text = some .bare := by
  induction text with
  | nil => rfl
  | cons c rest ih =>
    obtain ⟨first, later⟩ := (ordinary_append [c] rest).mp plain
    obtain ⟨passes, slash, quote⟩ := ordinary_signs (ordinary_mem.mp first c List.mem_cons_self)
    simpa [scan, passes, Mode.next, slash, quote] using ih later

private theorem ordinary_text {filter : Filter} (composed : isComposed filter = true)
    (pathless : ∀ path, filter ≠ .subtitles path) : Ordinary filter.text.toList := by
  cases filter
  case verbatim => cases composed
  case subtitles path => exact absurd rfl (pathless path)
  all_goals
    unfold Filter.text
    simp only [numberText, gainText, String.toList_append, String.toList_ofList, Nat.toString_eq_repr,
      Nat.toList_repr, ordinary_append, (plain_number _).1, (plain_fixed _ _).1, (plain_digits _).1, and_true]
    decide

private theorem scan_escaped (path : String) : scan .quoted (escapedPath path).toList = some .quoted := by
  have each : ∀ c, scan .quoted (escapedPathChar c) = some .quoted := by
    intro c
    unfold escapedPathChar
    split
    · rfl
    · rfl
    · rfl
    next quote =>
      have passes : c ≠ '\'' := quote
      simp [scan, Mode.next, passes]
  simp only [escapedPath, String.toList_ofList]
  induction path.toList with
  | nil => rfl
  | cons c rest ih => rw [List.flatMap_cons, scan_append, each, Option.bind_some, ih]

/-- Every filter that is written from its options is read as one. -/
private theorem whole_text {filter : Filter} (composed : isComposed filter = true) : Whole filter.text.toList := by
  constructor
  · cases filter
    case verbatim => cases composed
    all_goals
      unfold Filter.text
      simp
  · by_cases pathless : ∀ path, filter ≠ .subtitles path
    · exact scan_ordinary (ordinary_text composed pathless)
    · obtain ⟨path, rfl⟩ := by simpa using pathless
      have opened : scan .bare "ass='".toList = some .quoted := by decide
      have closed : scan .quoted "'".toList = some .bare := by decide
      unfold Filter.text
      simp only [String.toList_append, scan_append, opened, closed, scan_escaped, Option.bind_some]

private theorem origin_composed {plan : Plan} {filter : Filter} (origin : Origin plan filter) :
    isComposed filter = true := by
  have all {filters : List Filter} (composed : filters.all isComposed = true) (member : filter ∈ filters) :
      isComposed filter = true := List.all_eq_true.mp composed filter member
  cases origin with
  | picture _ cuts => exact all rfl cuts
  | sound _ cuts => exact all (by simp [soundFilters, isComposed]) cuts
  | clip _ treats => exact all (by simp [clipFilters, isComposed]) treats
  | master _ => rfl
  | fixed fixed =>
    cases filter
    case verbatim => cases fixed
    all_goals rfl

private theorem digits_named (number : Nat) : (Nat.toDigits 10 number).all Char.isAlphanum = true := by
  rw [List.all_eq_true]
  intro c member
  simp [Char.isAlphanum, digits_isDigit number c member]

private theorem segmentLabels_named (count : Nat) (stream : Stream) :
    ∀ label ∈ FilterLabels.segmentLabels count stream, isName label = true := by
  intro label member
  obtain ⟨index, -, rfl⟩ := List.mem_map.mp member
  simp only [isName, FilterLabels.segmentLabel_toList, List.all_cons, List.all_append, digits_named]
  cases stream <;> decide

private theorem clipLabels_named (count : Nat) : ∀ label ∈ FilterLabels.clipLabels count, isName label = true := by
  intro label member
  obtain ⟨index, -, rfl⟩ := List.mem_map.mp member
  simp only [isName, FilterLabels.clipLabel_toList, List.all_cons, digits_named]
  decide

private theorem labels_named (segments clips : Nat) :
    ∀ label ∈ FilterLabels.pictureLabels segments ++ FilterLabels.soundLabels segments clips,
      isName label = true := by
  have fixed : ∀ label ∈ FilterLabels.fixedLabels, isName label = true := by decide
  intro label member
  rw [(FilterLabels.labels_perm segments clips).mem_iff] at member
  rcases List.mem_append.mp member with segment | other
  · rcases List.mem_append.mp segment with picture | sound
    · exact segmentLabels_named segments .video label picture
    · exact segmentLabels_named segments .sound label sound
  · rcases List.mem_append.mp other with clip | other
    · exact clipLabels_named clips label clip
    · exact fixed label other

private theorem graph_readable (plan : Plan) (canvas : Canvas) : ∀ node ∈ (plan.graph canvas).nodes, Readable node := by
  obtain ⟨left, runs, -⟩ := FilterCompile.graph_runs plan canvas
  have bounded := FilterCompile.graph_labels plan canvas
  have named : ∀ name ∈ written (plan.graph canvas).nodes, isName name = true :=
    fun name member => labels_named _ _ name (bounded.subset member)
  intro node member
  obtain ⟨some_filter, -, labels⟩ := nodes_known runs node member
  refine ⟨some_filter, ?_, ?_, ?_⟩
  · intro filter inside
    exact whole_text (origin_composed (graph_origin plan canvas node member filter inside))
  · intro name read
    exact named name (by simpa [Scope.labels] using labels name read)
  · intro name wrote
    exact named name (List.mem_flatMap.mpr ⟨node, member, wrote⟩)

/-- The nodes that a compiled plan is made of. One chain is one node without pads and labels. -/
def nodesOf : Compiled → List Node
  | .simple filters => [⟨[], filters, []⟩]
  | .complex graph _ => graph.nodes

theorem argument_parsed {plan : Plan} {canvas : Canvas} {text : String}
    (argument : (compiledOf plan canvas).argument = .ok text) :
    parse text = some ((nodesOf (compiledOf plan canvas)).map readingOf) := by
  unfold compiledOf at argument ⊢
  split at argument
  next simple =>
    cases argument
    rw [if_pos simple]
    refine parse_filters ?_ ?_
    · simp [normalization]
    intro filter member
    apply whole_text
    revert filter
    cases plan.subtitles <;> simp [normalization, isComposed]
  next complex =>
    simp only [Compiled.argument, Graph.serialize, graph_valid, Except.map] at argument
    cases argument
    rw [if_neg complex]
    refine parse_text ?_ (graph_readable plan canvas) plan.inputCount
    intro none
    have read := FilterInputs.source_mem_readings plan canvas
    rw [(List.append_eq_nil_iff.mp none).1] at read
    cases read

/-- The text of a compiled plan is read back, to its end, as the nodes or the one chain that it was written
from: whatever the numbers in the plan are, and whatever signs the path of its subtitles has. The only plans
without a text are those that do not compile, for a rate of tempo that cannot be split. -/
theorem compile_reads_back (plan : Plan) (canvas : Canvas) :
    Endless plan ∧ plan.compile canvas = none ∨
    ¬Endless plan ∧ ∃ compiled text, plan.compile canvas = some (.ok compiled) ∧ compiled.argument = .ok text ∧
      parse text = some (match compiled with
        | .simple filters => [⟨[], filters.map Filter.text, []⟩]
        | .complex graph _ => graph.nodes.map readingOf) := by
  by_cases endless : Endless plan
  · exact .inl ⟨endless, compile_endless endless canvas⟩
  obtain ⟨text, argument⟩ := argument_ok plan canvas
  refine .inr ⟨endless, _, text, compile_eq endless canvas, argument, ?_⟩
  rw [argument_parsed argument]
  cases compiledOf plan canvas <;> simp [nodesOf, readingOf]

end Montage.Proofs.FilterNotation
