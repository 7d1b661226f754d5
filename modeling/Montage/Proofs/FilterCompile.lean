import Montage.Command
import Montage.Proofs.FilterInputs
import Montage.Proofs.FilterPicture
import Montage.Proofs.FilterSound

/-! Every plan compiles whose rates of tempo can be split. What comes out means what the plan asks for,
whether it is one chain or a graph, and a graph is wired right and reads every input as the layout of
inputs says. -/

namespace Montage.Proofs.FilterCompile
open Montage.Filter FilterEffects FilterAmounts FilterWiring FilterIntent FilterStages

/-- What a compiled plan shows. One chain works on the picture of the source. -/
def shown : Compiled → Option Signal
  | .simple filters => (through filters [.input 0 .video]).map fun outputs => outputs 0
  | .complex graph _ => resolve graph videoOutput

def sounds : Compiled → Bool
  | .simple _ => false
  | .complex _ hasSound => hasSound

/-- The streams that a compiled plan reads from an input. One chain reads the picture of the source. -/
def reads (index : Nat) : Compiled → List Stream
  | .simple _ => if index = 0 then [.video] else []
  | .complex graph _ => FilterInputs.readings index graph.nodes

theorem graph_runs (plan : Plan) (canvas : Canvas) :
    ∃ left, Runs plan.inputCount [] (plan.graph canvas).nodes left ∧
      left.labels.Perm (Compiled.terminals (soundNodes plan).isSome) ∧
      (videoOutput, picture computed plan canvas) ∈ left ∧
      (HasSound plan → (soundOutput, sound computed plan) ∈ left) := by
  have pictures := (FilterPicture.finished_yields plan canvas).1.runs
  by_cases asked : HasSound plan
  · obtain ⟨nodes, found, yields, -⟩ := FilterSound.soundNodes_yield asked
    have both := pictures.append (yields.runs.frame [(videoOutput, picture computed plan canvas)])
    simp only [Plan.graph, found, Option.getD_some, Option.isSome_some]
    exact ⟨_, both, .swap .., by simp, fun _ => by simp⟩
  · have silent := FilterSound.soundNodes_none asked
    simp only [Plan.graph, silent, Option.getD_none, List.append_nil, Option.isSome_none]
    exact ⟨_, pictures, .refl _, by simp, fun asks => absurd asks asked⟩

theorem graph_labels (plan : Plan) (canvas : Canvas) : (written (plan.graph canvas).nodes).Sublist
    (FilterLabels.pictureLabels plan.segments.length ++
      FilterLabels.soundLabels plan.segments.length plan.clips.length) := by
  have picture := (FilterPicture.finished_yields plan canvas).2
  rw [Plan.graph, written_append]
  apply picture.append
  by_cases asked : HasSound plan
  · obtain ⟨nodes, found, -, bounded⟩ := FilterSound.soundNodes_yield asked
    simpa only [found, Option.getD_some] using bounded
  · simp [FilterSound.soundNodes_none asked, written]

private theorem graph_distinct (plan : Plan) (canvas : Canvas) : (written (plan.graph canvas).nodes).Nodup :=
  (graph_labels plan canvas).nodup (FilterLabels.labels_nodup plan.segments.length plan.clips.length)

theorem graph_valid (plan : Plan) (canvas : Canvas) :
    (plan.graph canvas).validate (Compiled.terminals (soundNodes plan).isSome) = .ok () := by
  obtain ⟨left, runs, terminals, -⟩ := graph_runs plan canvas
  exact validate_of_runs runs (graph_distinct plan canvas) fun label => terminals.mem_iff

theorem isEndless_iff (plan : Plan) : plan.isEndless = true ↔ Endless plan := by
  simp [Plan.isEndless, Endless, ← TempoFactors.tempoSteps_none]

def compiledOf (plan : Plan) (canvas : Canvas) : Compiled :=
  if plan.isSimple canvas then .simple (normalization canvas ++ plan.subtitles.toList.map .subtitles)
  else .complex (plan.graph canvas) (soundNodes plan).isSome

/-- The check of the wiring never stops a plan. -/
theorem compile_eq {plan : Plan} (ends : ¬Endless plan) (canvas : Canvas) :
    plan.compile canvas = some (.ok (compiledOf plan canvas)) := by
  rw [Plan.compile, if_neg (by rwa [isEndless_iff])]
  unfold compiledOf
  split
  · rfl
  · simp only [Compiled.argument, Graph.serialize, graph_valid, Except.map]

theorem compile_endless {plan : Plan} (endless : Endless plan) (canvas : Canvas) : plan.compile canvas = none := by
  rw [Plan.compile, if_pos ((isEndless_iff plan).mpr endless)]

theorem compile_ok {plan : Plan} {canvas : Canvas} {result : Except GraphFault Compiled}
    (compiles : plan.compile canvas = some result) : ¬Endless plan ∧ result = .ok (compiledOf plan canvas) := by
  by_cases endless : Endless plan
  · rw [compile_endless endless] at compiles
    cases compiles
  · rw [compile_eq endless] at compiles
    exact ⟨endless, (Option.some.inj compiles).symm⟩

/-- One chain is enough where nothing is cut, mixed, blurred or laid over. -/
structure Bare (plan : Plan) (canvas : Canvas) : Prop where
  whole : plan.segments = []
  alone : plan.clips = []
  unleveled : (plan.masterVolume == 0) = true
  clear : plan.blurBox canvas = none
  uncovered : plan.hasOverlay = false

theorem bare_of_simple {plan : Plan} {canvas : Canvas} (simple : plan.isSimple canvas = true) :
    Bare plan canvas := by
  simp only [Plan.isSimple, Plan.leavesSound, Plan.hasMasterVolume, Bool.and_eq_true, List.isEmpty_iff,
    Option.isNone_iff_eq_none, Bool.not_eq_true', Bool.not_not] at simple
  obtain ⟨⟨⟨⟨whole, alone⟩, unleveled⟩, clear⟩, uncovered⟩ := simple
  exact ⟨whole, alone, by simpa using unleveled, clear, uncovered⟩

theorem argument_ok (plan : Plan) (canvas : Canvas) : ∃ text, (compiledOf plan canvas).argument = .ok text := by
  unfold compiledOf
  split
  · exact ⟨_, rfl⟩
  · exact ⟨(plan.graph canvas).text, by simp [Compiled.argument, Graph.serialize, graph_valid, Except.map]⟩

theorem assembles (plan : Plan) (canvas : Canvas) (program : String) (inputs : Command.Inputs) (encoding : Encoding)
    (output : String) : ∃ command,
      Command.assemble program inputs (compiledOf plan canvas) encoding output = .ok command := by
  obtain ⟨text, argument⟩ := argument_ok plan canvas
  exact ⟨_, by simp only [Command.assemble, argument, Except.map]; rfl⟩

/-- The inputs of a compiled plan: each clip is read once and as sound, the overlay image once and as a
picture, and the source as a picture. -/
private theorem reads_layout (plan : Plan) (canvas : Canvas) :
    (∀ index < plan.clips.length, reads (index + 1) (compiledOf plan canvas) = [.sound]) ∧
    (plan.hasOverlay = true → reads (1 + plan.clips.length) (compiledOf plan canvas) = [.video]) ∧
    .video ∈ reads 0 (compiledOf plan canvas) := by
  unfold compiledOf
  split
  next simple =>
    obtain ⟨-, alone, -, -, uncovered⟩ := bare_of_simple simple
    simp [alone, uncovered, reads]
  next =>
    refine ⟨fun index inside => ?_, fun overlay => ?_, ?_⟩
    · have apart : plan.overlayInput ≠ some (index + 1) := by
        intro overlay
        have := (FilterPicture.overlay_known overlay).2.1
        omega
      have clip : 1 ≤ index + 1 ∧ index + 1 < 1 + plan.clips.length := by omega
      simp only [reads, Plan.graph, FilterInputs.readings_append, FilterInputs.readings_finished,
        FilterInputs.readings_assembled plan canvas (Nat.succ_ne_zero index),
        FilterInputs.readings_soundNodes plan (Nat.succ_ne_zero index), if_neg apart, if_pos clip,
        List.nil_append]
    · have image : 1 + plan.clips.length ≠ 0 := by omega
      have past : ¬(1 ≤ 1 + plan.clips.length ∧ 1 + plan.clips.length < 1 + plan.clips.length) := by omega
      have there : plan.overlayInput = some (1 + plan.clips.length) := by rw [Plan.overlayInput, if_pos overlay]
      simp only [reads, Plan.graph, FilterInputs.readings_append, FilterInputs.readings_finished,
        FilterInputs.readings_assembled plan canvas image, FilterInputs.readings_soundNodes plan image,
        if_pos there, if_neg past, List.nil_append, List.append_nil]
    · simp only [reads, Plan.graph, FilterInputs.readings_append]
      exact List.mem_append_left _ (FilterInputs.source_mem_readings plan canvas)

/-- A plan compiles unless the sound of its source has a segment at a rate that cannot be split, and then to something
well wired. A graph passes the check with the picture, and with the sound where it has one, as its terminals; every clip
is read by one pad, as sound, the overlay image by one pad, as a picture, and the source as a picture; and a command can
be put together from it. -/
theorem compile_wired (plan : Plan) (canvas : Canvas) :
    Endless plan ∧ plan.compile canvas = none ∨
    ¬Endless plan ∧ ∃ compiled, plan.compile canvas = some (.ok compiled) ∧
      (∀ graph hasSound, compiled = .complex graph hasSound →
        graph.validate (videoOutput :: if hasSound then [soundOutput] else []) = .ok ()) ∧
      (∀ index < plan.clips.length, reads (index + 1) compiled = [.sound]) ∧
      (plan.hasOverlay = true → reads (1 + plan.clips.length) compiled = [.video]) ∧
      .video ∈ reads 0 compiled ∧
      ∀ program inputs encoding output, ∃ command,
        Command.assemble program inputs compiled encoding output = .ok command := by
  by_cases endless : Endless plan
  · exact .inl ⟨endless, compile_endless endless canvas⟩
  obtain ⟨clips, image, source⟩ := reads_layout plan canvas
  refine .inr ⟨endless, _, compile_eq endless canvas, ?_, clips, image, source, assembles plan canvas⟩
  intro graph hasSound complex
  unfold compiledOf at complex
  split at complex
  · cases complex
  · cases complex
    have valid := graph_valid plan canvas
    unfold Compiled.terminals at valid
    split at valid <;> simp_all

def stillPlan : Plan :=
  { segments := [{ start := 0, stop := 1, rate := 0 }] }

theorem still_plan_endless : ¬∃ result, stillPlan.compile {} = some result := by
  have endless : Endless stillPlan := ⟨rfl, _, List.mem_singleton_self _, .inl (by decide)⟩
  rw [compile_endless endless]
  nofun

end Montage.Proofs.FilterCompile
