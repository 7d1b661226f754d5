import Montage.Proofs.RenderLeavings

/-! When a render starts the engine: exactly when every step before succeeds. What the prober has to say of
the source is none of them, but without its answer the source counts as having sound, and sound cannot follow
every rate. A render that looks for the tempo filters of such a rate is stuck. -/

namespace Montage.Proofs.RenderArrival
open Montage.Filter Montage.Render JobLogic RenderSteps RenderCourse RenderLeavings TempoFactors

/-- Every step on the way to the engine succeeds, whatever the prober answers about the source. -/
inductive Reaches (settings : Settings) (inputs : Inputs) (machine : Machine) : Prepared → Machine → Prop
  | steps {workspace output log : String} {made laid asked settled reserved ready : Machine} {staged : Staged}
      {info : Option MediaInfo} {compiled : Compiled} {command : Command}
      (found : (machine.programs.lookup settings.engine).isSome)
      (same : inputs.clips.length = inputs.request.clips.length)
      (opened : (makeWorkspace settings).run machine = (.ok workspace, made))
      (filled : (stage settings inputs workspace).run.run made = (.ok staged, laid))
      (probed : (probe settings staged.inputs.source).run laid = (info, asked))
      (compiles : (Plan.ofRequest inputs.request staged.subtitles ((info.map (·.hasSound)).getD true)).compile
        settings.canvas = some (.ok compiled))
      (housed : (Job.ask (.makeDirectories (settings.outputDirectory inputs.project))).run asked = (.ok (), settled))
      (named : (outputPath (settings.outputDirectory inputs.project) inputs.project inputs.request.outputName
        asked.clock).run.run settled = (.ok output, reserved))
      (assembled : Command.assemble settings.engine staged.inputs compiled settings.encoding output = .ok command)
      (logged : (Audit.create (settings.outputDirectory inputs.project) inputs.project output command.line
        asked.clock).run reserved = (.ok log, ready)) :
      Reaches settings inputs machine ⟨command, log⟩ ready

variable {settings : Settings} {inputs : Inputs} {machine ready : Machine} {prepared : Prepared}

theorem reaches_iff : Reaches settings inputs machine prepared ready ↔
    (machine.programs.lookup settings.engine).isSome ∧ inputs.clips.length = inputs.request.clips.length ∧
      ∃ workspace made, (makeWorkspace settings).run machine = (.ok workspace, made) ∧
        (prepare settings inputs workspace).run.run made = (.ok prepared, ready) := by
  have now : ∀ {asked after : Machine} {instant : Instant}, (Job.ask .now).run asked = (instant, after) ↔
      asked.clock = instant ∧ asked = after := by
    intro asked after instant
    exact Prod.ext_iff
  simp only [prepare, arrange, bind_ok_iff, pure_ok_iff, ofJob_ok_iff, ofDisk_ok_iff, ofExcept_ok_iff, compile_ok_iff]
  constructor
  · rintro ⟨found, same, opened, filled, probed, compiles, housed, named, assembled, logged⟩
    refine ⟨found, same, _, _, opened, _, _, ⟨_, _, filled, _, _, probed, _, _, ⟨compiles, rfl⟩, _, _, now.mpr ⟨rfl, rfl⟩,
      _, _, housed, _, _, named, _, _, ⟨assembled, rfl⟩, rfl, rfl⟩, _, _, logged, rfl, rfl⟩
  · rintro ⟨found, same, _, _, opened, _, _, ⟨_, _, filled, _, _, probed, _, _, ⟨compiles, rfl⟩, _, _, clock,
      _, _, housed, _, _, named, _, _, ⟨assembled, rfl⟩, rfl, rfl⟩, _, _, logged, rfl, rfl⟩
    obtain ⟨rfl, rfl⟩ := now.mp clock
    exact .steps found same opened filled probed compiles housed named assembled logged

theorem reaches_unique {other : Prepared} {last : Machine} (one : Reaches settings inputs machine prepared ready)
    (two : Reaches settings inputs machine other last) : prepared = other ∧ ready = last := by
  obtain ⟨-, -, workspace, made, opened, arrived⟩ := reaches_iff.mp one
  obtain ⟨-, -, _, _, again, arrives⟩ := reaches_iff.mp two
  cases opened.symm.trans again
  cases arrived.symm.trans arrives
  exact ⟨rfl, rfl⟩

/-- An attempt that comes to an end, with success or with a fault that is told. -/
def Ends (attempt : Attempt α) : Prop :=
  ∀ machine after, attempt.run.run machine ≠ (.error .endless, after)

namespace Ends

theorem pure (value : α) : Ends (Pure.pure value) := by
  intro machine after stuck
  cases stuck

theorem fail {fault : Fault} (told : fault ≠ .endless) : Ends (Attempt.fail fault : Attempt α) := by
  intro machine after stuck
  cases (fail_iff.mp stuck).1
  exact told rfl

theorem bind {attempt : Attempt α} {next : α → Attempt β} (first : Ends attempt) (later : ∀ value, Ends (next value)) :
    Ends (attempt >>= next) := by
  intro machine after stuck
  rcases bind_error_iff.mp stuck with early | ⟨value, middle, -, late⟩
  · exact first machine after early
  · exact later value middle after late

theorem first_iff {attempt : Attempt α} {next : α → Attempt β} (first : Ends attempt) {machine after : Machine} :
    (attempt >>= next).run.run machine = (.error .endless, after) ↔
      ∃ value middle, attempt.run.run machine = (.ok value, middle) ∧
        (next value).run.run middle = (.error .endless, after) := by
  rw [bind_error_iff, or_iff_right (first machine after)]

theorem later_iff {attempt : Attempt α} {next : α → Attempt β} (later : ∀ value, Ends (next value))
    {machine after : Machine} : (attempt >>= next).run.run machine = (.error .endless, after) ↔
      attempt.run.run machine = (.error .endless, after) := by
  rw [bind_error_iff, or_iff_left]
  rintro ⟨value, middle, -, stuck⟩
  exact later value middle after stuck

theorem ofJob (job : Job α) : Ends (Attempt.ofJob job) := by
  intro machine after stuck
  have lifted : (Attempt.ofJob job).run.run machine = (.ok (job.run machine).1, (job.run machine).2) :=
    run_bind job _ machine
  cases lifted.symm.trans stuck

theorem ofDisk (job : Job (Except DiskFault α)) : Ends (Attempt.ofDisk job) := by
  intro machine after stuck
  have lifted : (Attempt.ofDisk job).run.run machine = ((job.run machine).1.mapError .disk, (job.run machine).2) :=
    run_bind job _ machine
  rw [lifted] at stuck
  generalize (job.run machine).1 = result at stuck
  cases result <;> cases stuck

theorem ofExcept {describe : ε → Fault} (result : Except ε α) (told : ∀ fault, describe fault ≠ .endless) :
    Ends (Attempt.ofExcept describe result) := by
  intro machine after stuck
  have given : (Attempt.ofExcept describe result).run.run machine = (result.mapError describe, machine) := rfl
  rw [given] at stuck
  cases result with
  | ok value => cases stuck
  | error fault => exact told fault (Except.error.inj (Prod.mk.inj stuck).1)

theorem stageClips (workspace : String) (clips : List Upload) (index : Nat) :
    Ends (stageClips workspace index clips) := by
  induction clips generalizing index with
  | nil => exact pure _
  | cons clip rest ih => exact (ofDisk _).bind fun _ => (ih _).bind fun _ => pure _

theorem stage (settings : Settings) (inputs : Inputs) (workspace : String) : Ends (stage settings inputs workspace) := by
  have overlay : Ends (stageOverlay workspace inputs.request) := by
    unfold stageOverlay
    split
    · exact pure _
    · split
      · exact fail (by simp)
      · exact (ofDisk _).bind fun _ => pure _
  have subtitles : Ends (stageSubtitles workspace inputs.request settings.canvas) := by
    unfold stageSubtitles
    split
    · exact pure _
    · exact (ofDisk _).bind fun _ => pure _
  exact (ofDisk _).bind fun _ => (stageClips _ _ _).bind fun _ => overlay.bind fun _ => subtitles.bind fun _ => pure _

theorem outputPath (directory project : String) (requested : Option String) (instant : Instant) :
    Ends (outputPath directory project requested instant) := by
  unfold Render.outputPath
  split
  · exact pure _
  · exact ofDisk _

end Ends

theorem compile_endless_iff {plan : Plan} {after : Machine} :
    (compile settings plan).run.run machine = (.error .endless, after) ↔ FilterIntent.Endless plan ∧ machine = after := by
  unfold compile
  by_cases endless : FilterIntent.Endless plan
  · rw [FilterCompile.compile_endless endless]
    simp [fail_iff, endless]
  · rw [FilterCompile.compile_eq endless]
    simp only [endless, false_and, iff_false]
    exact Ends.ofExcept _ (by simp) _ _

/-- Every step up to the filters succeeds, and there the source has sound for whose tempo no filters are found. -/
inductive Stuck (settings : Settings) (inputs : Inputs) (machine : Machine) : Prop
  | steps {workspace : String} {made laid asked : Machine} {staged : Staged} {info : Option MediaInfo}
      (found : (machine.programs.lookup settings.engine).isSome)
      (same : inputs.clips.length = inputs.request.clips.length)
      (opened : (makeWorkspace settings).run machine = (.ok workspace, made))
      (filled : (stage settings inputs workspace).run.run made = (.ok staged, laid))
      (probed : (probe settings staged.inputs.source).run laid = (info, asked))
      (sound : (info.map (·.hasSound)).getD true = true)
      (unsplit : ∃ segment ∈ inputs.request.segments, Unsplit segment.rate)

theorem prepare_endless_iff {workspace : String} {made after : Machine} :
    (prepare settings inputs workspace).run.run made = (.error .endless, after) ↔
      ∃ staged laid info, (stage settings inputs workspace).run.run made = (.ok staged, laid) ∧
        (probe settings staged.inputs.source).run laid = (info, after) ∧
        FilterIntent.Endless (Plan.ofRequest inputs.request staged.subtitles ((info.map (·.hasSound)).getD true)) := by
  have logs : ∀ arranged : Arranged, Ends (do
      let log ← Attempt.ofDisk (Audit.create (settings.outputDirectory inputs.project) inputs.project
        arranged.output arranged.command.line arranged.instant)
      pure (Prepared.mk arranged.command log)) :=
    fun _ => (Ends.ofDisk _).bind fun _ => .pure _
  -- Only compiling the filters may have no end, neither what comes before nor what follows.
  rw [prepare, Ends.later_iff logs, arrange, (Ends.stage settings inputs workspace).first_iff]
  refine exists_congr fun staged => ?_
  constructor
  · rintro ⟨laid, filled, rest⟩
    obtain ⟨info, asked, probed, rest⟩ := (Ends.ofJob _).first_iff.mp rest
    rw [Ends.later_iff ?_, compile_endless_iff] at rest
    · obtain ⟨endless, rfl⟩ := rest
      exact ⟨laid, info, filled, ofJob_ok_iff.mp probed, endless⟩
    · exact fun _ => (Ends.ofJob _).bind fun _ => (Ends.ofDisk _).bind fun _ => (Ends.outputPath _ _ _ _).bind
        fun _ => (Ends.ofExcept _ (by simp)).bind fun _ => .pure _
  · rintro ⟨laid, info, filled, probed, endless⟩
    refine ⟨laid, filled, (Ends.ofJob _).first_iff.mpr ⟨info, after, ofJob_ok_iff.mpr probed, ?_⟩⟩
    rw [bind_error_iff, compile_endless_iff]
    exact .inl ⟨endless, rfl⟩

theorem stuck_iff : Stuck settings inputs machine ↔
    (machine.programs.lookup settings.engine).isSome ∧ inputs.clips.length = inputs.request.clips.length ∧
      ∃ workspace made after, (makeWorkspace settings).run machine = (.ok workspace, made) ∧
        (prepare settings inputs workspace).run.run made = (.error .endless, after) := by
  simp only [prepare_endless_iff]
  constructor
  · rintro ⟨found, same, opened, filled, probed, sound, unsplit⟩
    exact ⟨found, same, _, _, _, opened, _, _, _, filled, probed, sound, unsplit⟩
  · rintro ⟨found, same, _, _, _, opened, _, _, _, filled, probed, sound, unsplit⟩
    exact ⟨found, same, opened, filled, probed, sound, unsplit⟩

theorem stuck_unreached (stuck : Stuck settings inputs machine) (prepared : Prepared) (ready : Machine) :
    ¬ Reaches settings inputs machine prepared ready := by
  intro reached
  obtain ⟨-, -, _, _, _, opened, failed⟩ := stuck_iff.mp stuck
  obtain ⟨-, -, _, _, again, arrived⟩ := reaches_iff.mp reached
  cases opened.symm.trans again
  cases failed.symm.trans arrived

/-- How a render ends, as far as the client is told. -/
inductive Ended (settings : Settings) (inputs : Inputs) (machine : Machine) : Result → Prop
  | rejected (missing : machine.programs.lookup settings.engine = none) :
      Ended settings inputs machine
        (unfinished .rejected inputs.request (.engineNotFound (notInstalled settings.engine)))
  | stopped {fault : Fault} (found : machine.programs.lookup settings.engine ≠ none)
      (never : ∀ prepared ready, ¬ Reaches settings inputs machine prepared ready)
      (ends : ¬ Stuck settings inputs machine) :
      Ended settings inputs machine (unfinished .failed inputs.request fault)
  | stuck (stuck : Stuck settings inputs machine) :
      Ended settings inputs machine (unfinished .preparing inputs.request .endless)
  | launched {prepared : Prepared} {ready : Machine} (reached : Reaches settings inputs machine prepared ready) :
      Ended settings inputs machine ((launch settings inputs prepared).run ready).1

theorem render_ended (settings : Settings) (inputs : Inputs) (machine : Machine) :
    Ended settings inputs machine ((render settings inputs).run machine).1 := by
  have course := render_course settings inputs machine
  generalize (render settings inputs).run machine = ended at course ⊢
  cases course with
  | rejected missing => exact .rejected missing
  | miscounted found differ =>
    apply Ended.stopped (Option.isSome_iff_ne_none.mp found)
    · exact fun prepared ready reached => differ (reaches_iff.mp reached).2.1
    · exact fun stuck => differ (stuck_iff.mp stuck).2.1
  | roomless found same refused =>
    apply Ended.stopped (Option.isSome_iff_ne_none.mp found)
    · intro prepared ready reached
      obtain ⟨-, -, _, _, opened, -⟩ := reaches_iff.mp reached
      cases refused.symm.trans opened
    · intro stuck
      obtain ⟨-, -, _, _, _, opened, -⟩ := stuck_iff.mp stuck
      cases refused.symm.trans opened
  | unprepared found same opened stopped ends =>
    apply Ended.stopped (Option.isSome_iff_ne_none.mp found)
    · intro prepared ready reached
      obtain ⟨-, -, _, _, again, arrived⟩ := reaches_iff.mp reached
      cases opened.symm.trans again
      cases stopped.symm.trans arrived
    · intro stuck
      obtain ⟨-, -, _, _, _, again, failed⟩ := stuck_iff.mp stuck
      cases opened.symm.trans again
      cases stopped.symm.trans failed
      exact ends rfl
  | stuck found same opened stopped => exact .stuck (stuck_iff.mpr ⟨found, same, _, _, _, opened, stopped⟩)
  | launched found same opened arrived => exact .launched (reaches_iff.mpr ⟨found, same, _, _, opened, arrived⟩)

/-- The whole course of a render that starts the engine. -/
theorem reaches_course (reached : Reaches settings inputs machine prepared ready) :
    ∃ workspace made, (makeWorkspace settings).run machine = (.ok workspace, made) ∧
      (prepare settings inputs workspace).run.run made = (.ok prepared, ready) ∧
      (render settings inputs).run machine = (((launch settings inputs prepared).run ready).1,
        cleared workspace ((launch settings inputs prepared).run ready).2) := by
  obtain ⟨found, same, workspace, made, opened, arrived⟩ := reaches_iff.mp reached
  refine ⟨workspace, made, opened, arrived, ?_⟩
  have course := render_course settings inputs machine
  generalize (render settings inputs).run machine = ended at course
  cases course with
  | rejected missing => exact absurd missing (Option.isSome_iff_ne_none.mp found)
  | miscounted _ differ => exact absurd same differ
  | roomless _ _ refused => cases refused.symm.trans opened
  | unprepared _ _ again stopped | stuck _ _ again stopped =>
    cases opened.symm.trans again
    cases stopped.symm.trans arrived
  | launched _ _ again arrives =>
    cases opened.symm.trans again
    cases arrived.symm.trans arrives
    rfl

theorem render_reached (reached : Reaches settings inputs machine prepared ready) :
    ((render settings inputs).run machine).1 = ((launch settings inputs prepared).run ready).1 := by
  obtain ⟨_, _, -, -, ran⟩ := reaches_course reached
  rw [ran]

theorem reaches_readied (reached : Reaches settings inputs machine prepared ready) :
    ∃ workspace made, Readied settings inputs workspace prepared made ready := by
  obtain ⟨-, -, workspace, made, -, arrived⟩ := reaches_iff.mp reached
  exact ⟨workspace, made, prepare_ok arrived⟩

theorem reaches_programs (reached : Reaches settings inputs machine prepared ready) :
    ready.programs = machine.programs := by
  obtain ⟨-, -, workspace, made, opened, arrived⟩ := reaches_iff.mp reached
  have first := RenderPrograms.run_programs (makeWorkspace settings) machine
  have second := RenderPrograms.run_programs (prepare settings inputs workspace).run made
  rw [opened] at first
  rw [arrived] at second
  exact second.trans first

theorem reaches_program (reached : Reaches settings inputs machine prepared ready) :
    prepared.command.program = settings.engine := by
  cases reached with
  | steps found same opened filled probed compiles housed named assembled logged =>
    obtain ⟨-, -, program, -⟩ := RenderLayout.assemble_ok assembled
    exact program

end Montage.Proofs.RenderArrival
