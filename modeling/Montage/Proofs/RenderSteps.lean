import Montage.Proofs.RenderOutput
import Montage.Proofs.StagedNames

/-! What each part of a render changes: staging and asking the prober only the staged files, reserving a
name the one file that it makes, and the engine, its log and what follows only the output and the log. -/

namespace Montage.Proofs.RenderSteps
open Montage.Render JobLogic DiskPlaces PathJoin StagedNames JobFrame

variable {made files : List String → Prop}

section Staging
variable {allowed : Action → Prop} {workspace : String}
  (inside : ∀ name content, Stages name → allowed (.write (Path.join workspace name) content))
include inside

theorem writeFile_confined {name : String} (stages : Stages name) (content : ByteArray) :
    Confined allowed (writeFile (Path.join workspace name) content).run :=
  .ofDisk (.ask (inside name content stages))

private theorem stageClips_confined (clips : List Upload) (index : Nat) :
    Confined allowed (stageClips workspace index clips).run := by
  induction clips generalizing index with
  | nil => exact .attempt_pure _
  | cons clip rest ih =>
    apply Confined.attempt_bind (writeFile_confined inside (stages_clip index clip.name) clip.content)
    intro _
    apply Confined.attempt_bind (ih (index + 1))
    intro paths
    exact .attempt_pure _

private theorem stageOverlay_confined (request : Request) :
    Confined allowed (stageOverlay workspace request).run := by
  unfold stageOverlay
  split
  · exact .attempt_pure _
  · split
    · exact .fail _
    · apply Confined.attempt_bind (writeFile_confined inside stages_overlay _)
      intro _
      exact .attempt_pure _

private theorem stageSubtitles_confined (request : Request) (canvas : Filter.Canvas) :
    Confined allowed (stageSubtitles workspace request canvas).run := by
  unfold stageSubtitles
  split
  · exact .attempt_pure _
  · apply Confined.attempt_bind (writeFile_confined inside stages_subtitles _)
    intro _
    exact .attempt_pure _

theorem stage_confined (settings : Settings) (inputs : Inputs) :
    Confined allowed (stage settings inputs workspace).run := by
  apply Confined.attempt_bind (writeFile_confined inside (stages_source inputs.source.name) _)
  intro _
  apply Confined.attempt_bind (stageClips_confined inside inputs.clips 0)
  intro clips
  apply Confined.attempt_bind (stageOverlay_confined inside inputs.request)
  intro overlay
  apply Confined.attempt_bind (stageSubtitles_confined inside inputs.request settings.canvas)
  intro subtitles
  exact .attempt_pure _

end Staging

theorem attempts_any (attempt : Attempt α) (machine : Machine) :
    Attempts attempt machine (fun _ _ => True) fun _ _ => True := by
  constructor
  split <;> trivial

/-- The source lies where its name says, whatever else is staged. -/
theorem stage_source (settings : Settings) (inputs : Inputs) (workspace : String) (machine : Machine) :
    Attempts (stage settings inputs workspace) machine
      (fun staged _ => staged.inputs.source = Path.join workspace (sourceName inputs.source.name)) fun _ _ => True := by
  apply Attempts.bind (attempts_any _ _)
  rintro _ _ -
  apply Attempts.bind (attempts_any _ _)
  rintro _ _ -
  apply Attempts.bind (attempts_any _ _)
  rintro _ _ -
  apply Attempts.bind (attempts_any _ _)
  rintro _ _ -
  exact Attempts.pure rfl

section Compiling
variable {settings : Settings} {plan : Filter.Plan} {machine after : Machine} {compiled : Filter.Compiled}

theorem compile_confined {allowed : Action → Prop} : Confined allowed (compile settings plan).run := by
  unfold compile
  split
  · exact .ofExcept _ _
  · exact .fail _

theorem compile_ok_iff : (compile settings plan).run.run machine = (.ok compiled, after) ↔
    plan.compile settings.canvas = some (.ok compiled) ∧ machine = after := by
  unfold compile
  cases plan.compile settings.canvas with
  | none => simp [fail_iff]
  | some result => simp [ofExcept_ok_iff]

theorem compile_attempts {bad : Fault → Machine → Prop} (settings : Settings) (plan : Filter.Plan)
    (failure : ∀ fault, bad fault machine) : Attempts (compile settings plan) machine
      (fun compiled after => plan.compile settings.canvas = some (.ok compiled) ∧ after = machine) bad := by
  unfold compile
  cases plan.compile settings.canvas with
  | none => exact Attempts.fail (failure _)
  | some result =>
    apply (Attempts.ofExcept _ _ failure).weaken ?_ fun _ _ bad => bad
    rintro compiled after ⟨rfl, same⟩
    exact ⟨rfl, same⟩

end Compiling

section Ending

theorem leave_ended {result : Except Fault Result} (ends : result ≠ .error .endless) (workspace : String) :
    leave workspace result = (Job.ask (.removeTree workspace) >>= fun _ : Unit => pure result) := by
  rcases result with fault | result
  · cases fault <;> first | rfl | exact absurd rfl ends
  · rfl

theorem told_failed {fault : Fault} (ends : fault ≠ .endless) (request : Request) :
    told request (.error fault) = unfinished .failed request fault := by
  cases fault <;> first | rfl | exact absurd rfl ends

end Ending

/-- Asking the prober about a file starts it on that file, if there is one, and that is all. -/
theorem probe_confined {allowed : Action → Prop} (settings : Settings) {path : String}
    (found : ∀ name, allowed (.findProgram name)) (there : allowed (.isThere path))
    (asked : ∀ prober, allowed (.runProgram prober (Probe.arguments path) none)) :
    Confined allowed (probe settings path) := by
  have known : Confined allowed (findProber settings.prober).run := by
    apply Confined.attempt_bind (.ofJob (.ask (found _)))
    intro there
    cases there with
    | true => exact .attempt_pure _
    | false => exact .fail _
  have told : ∀ prober, Confined allowed (Probe.media prober path).run := by
    intro prober
    apply Confined.bind (.ask there)
    intro there
    cases there with
    | false => exact .pure _
    | true =>
      apply Confined.bind (.ask (asked prober))
      intro result
      exact .pure _
  apply Confined.bind known
  intro result
  cases result with
  | error fault => exact .pure _
  | ok prober =>
    apply Confined.bind (told prober)
    intro result
    cases result <;> exact .pure _

theorem probe_within (settings : Settings) {path : String} (inside : files (placeOf path)) :
    Confined (Within made files) (probe settings path) := by
  apply probe_confined settings (fun _ => trivial) trivial
  intro prober last same
  cases same
  exact inside

/-- The engine is told last where to put the output. -/
theorem last_argument {command : Command} {path : String} (last : command.allArguments.getLast? = some path) :
    command.output = path := by
  rw [Command.allArguments, List.getLast?_concat] at last
  exact Option.some.inj last

/-- Invoking the engine starts it, notes what came of it, and looks for the output. -/
theorem invoke_confined {allowed : Action → Prop} (settings : Settings) {command : Command} {log : String}
    (started : allowed (.runProgram command.program command.allArguments (some settings.timeout)))
    (noted : ∀ content, allowed (.append log content)) (sized : allowed (.size command.output)) :
    Confined allowed (invoke settings command log).run := by
  apply Confined.attempt_bind (.ofJob (.ask started))
  intro result
  cases result with
  | error fault =>
    apply Confined.attempt_bind (.ofJob (.ask (noted _)))
    intro _
    exact .fail _
  | ok finished =>
    apply Confined.attempt_bind (.ofJob (.ask (noted _)))
    intro _
    unfold judge
    split
    · exact .fail _
    · apply Confined.attempt_bind (.ofJob (.ask sized))
      intro size
      split
      · exact .attempt_pure _
      · exact .fail _
    · exact .fail _

theorem invoke_within (settings : Settings) {command : Command} {log : String} (output : files (placeOf command.output))
    (logged : files (placeOf log)) : Confined (Within made files) (invoke settings command log).run := by
  apply invoke_confined settings ?_ (fun _ => logged) trivial
  intro path last
  rwa [← last_argument last]

theorem conclude_within (settings : Settings) (counts : Counts) {command : Command} (log : String)
    (outcome : Except Fault Nat) (output : files (placeOf command.output)) :
    Confined (Within made files) (conclude settings counts command log outcome) := by
  cases outcome with
  | ok size =>
    apply Confined.bind (probe_within settings output)
    intro info
    exact .pure _
  | error fault =>
    have cleared : Confined (Within made files) (removeIfEmpty command.output) := by
      apply Confined.bind (.ask trivial)
      intro size
      split
      · apply Confined.bind (.ask output)
        intro _
        exact .pure _
      · exact .pure _
    apply Confined.bind cleared
    intro _
    exact .pure _

end Montage.Proofs.RenderSteps
