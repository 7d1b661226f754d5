import Montage.Proofs.RenderSteps
import Montage.Proofs.RenderWorkspace

/-! The course of a render. It stops before anything is done, or for want of a directory to stage in, or
on the way to the engine, or it starts the engine and tells what came of that. Or it is stuck on that way
for ever: no tempo filters make up for a segment's rate, and what was staged stays. -/

namespace Montage.Proofs.RenderCourse
open Montage.Filter Montage.Render JobLogic DiskFrame DiskPlaces DiskTree PathJoin JobFrame RenderSteps RenderOutput
  RenderWorkspace
open RenderLayout (assemble_ok)

/-- The output, the command that makes it, and the instant from which the render has its names. -/
structure Arranged where
  output : String
  command : Command
  instant : Instant

def arrange (settings : Settings) (inputs : Inputs) (workspace : String) : Attempt Arranged := do
  let staged ← stage settings inputs workspace
  let info ← Attempt.ofJob (probe settings staged.inputs.source)
  let hasSound := (info.map (·.hasSound)).getD true
  let compiled ← Render.compile settings (Plan.ofRequest inputs.request staged.subtitles hasSound)
  let instant ← Attempt.ofJob (Job.ask .now)
  let directory := settings.outputDirectory inputs.project
  Attempt.ofDisk (Job.ask (.makeDirectories directory))
  let output ← outputPath directory inputs.project inputs.request.outputName instant
  let command ← Attempt.ofExcept .graph
    (Command.assemble settings.engine staged.inputs compiled settings.encoding output)
  pure ⟨output, command, instant⟩

/-- The command, and the log in which it is noted. -/
structure Prepared where
  command : Command
  log : String

def prepare (settings : Settings) (inputs : Inputs) (workspace : String) : Attempt Prepared := do
  let arranged ← arrange settings inputs workspace
  let log ← Attempt.ofDisk (Audit.create (settings.outputDirectory inputs.project) inputs.project
    arranged.output arranged.command.line arranged.instant)
  pure ⟨arranged.command, log⟩

def launch (settings : Settings) (inputs : Inputs) (prepared : Prepared) : Job Result := do
  let result ← (invoke settings prepared.command prepared.log).run
  conclude settings inputs.request.counts prepared.command prepared.log result

private theorem ofJob_bind (job : Job α) (next : α → Job β) :
    Attempt.ofJob (job >>= next) = Attempt.ofJob job >>= fun value => Attempt.ofJob (next value) := by
  simp [Attempt.ofJob]

theorem work_prepared (settings : Settings) (inputs : Inputs) (workspace : String) :
    work settings inputs workspace = prepare settings inputs workspace >>= fun prepared =>
      Attempt.ofJob (launch settings inputs prepared) := by
  simp only [work, prepare, arrange, launch, bind_assoc, pure_bind, ofJob_bind]

/-- The machine when what was staged is removed. -/
def cleared (workspace : String) (machine : Machine) : Machine :=
  { machine with disk := machine.disk.removeTree workspace }

/-- How a render ends, and what it leaves. -/
inductive Course (settings : Settings) (inputs : Inputs) (machine : Machine) : Result × Machine → Prop
  | rejected (missing : machine.programs.lookup settings.engine = none) :
      Course settings inputs machine
        (unfinished .rejected inputs.request (.engineNotFound (notInstalled settings.engine)), machine)
  | miscounted (found : (machine.programs.lookup settings.engine).isSome)
      (differ : inputs.clips.length ≠ inputs.request.clips.length) :
      Course settings inputs machine
        (unfinished .failed inputs.request (.clipCount inputs.request.clips.length inputs.clips.length), machine)
  | roomless {fault : DiskFault} {after : Machine} (found : (machine.programs.lookup settings.engine).isSome)
      (same : inputs.clips.length = inputs.request.clips.length)
      (refused : (makeWorkspace settings).run machine = (.error fault, after)) :
      Course settings inputs machine (unfinished .failed inputs.request (.disk fault), after)
  | unprepared {workspace : String} {made after : Machine} {fault : Fault}
      (found : (machine.programs.lookup settings.engine).isSome)
      (same : inputs.clips.length = inputs.request.clips.length)
      (opened : (makeWorkspace settings).run machine = (.ok workspace, made))
      (stopped : (prepare settings inputs workspace).run.run made = (.error fault, after))
      (ends : fault ≠ .endless) :
      Course settings inputs machine (unfinished .failed inputs.request fault, cleared workspace after)
  | stuck {workspace : String} {made after : Machine}
      (found : (machine.programs.lookup settings.engine).isSome)
      (same : inputs.clips.length = inputs.request.clips.length)
      (opened : (makeWorkspace settings).run machine = (.ok workspace, made))
      (stopped : (prepare settings inputs workspace).run.run made = (.error .endless, after)) :
      Course settings inputs machine (unfinished .preparing inputs.request .endless, after)
  | launched {workspace : String} {made ready : Machine} {prepared : Prepared}
      (found : (machine.programs.lookup settings.engine).isSome)
      (same : inputs.clips.length = inputs.request.clips.length)
      (opened : (makeWorkspace settings).run machine = (.ok workspace, made))
      (arrived : (prepare settings inputs workspace).run.run made = (.ok prepared, ready)) :
      Course settings inputs machine (((launch settings inputs prepared).run ready).1,
        cleared workspace ((launch settings inputs prepared).run ready).2)

private theorem run_findEngine (engine : String) (machine : Machine) : (findEngine engine).run.run machine =
    (if (machine.programs.lookup engine).isSome then .ok engine
      else .error (.engineNotFound (notInstalled engine)), machine) := by
  have asked : (Attempt.ofJob (Job.ask (.findProgram engine))).run.run machine =
      (.ok (machine.programs.lookup engine).isSome, machine) := rfl
  rw [findEngine, run_attempt_bind, asked]
  cases (machine.programs.lookup engine).isSome <;> rfl

private theorem run_work (settings : Settings) (inputs : Inputs) (workspace : String) (machine : Machine) :
    (work settings inputs workspace).run.run machine =
      match (prepare settings inputs workspace).run.run machine with
      | (.ok prepared, ready) =>
        (.ok ((launch settings inputs prepared).run ready).1, ((launch settings inputs prepared).run ready).2)
      | (.error fault, after) => (.error fault, after) := by
  rw [work_prepared, run_attempt_bind]
  obtain ⟨result, ready⟩ := (prepare settings inputs workspace).run.run machine
  cases result with
  | error fault => rfl
  | ok prepared =>
    have lifted : (Attempt.ofJob (launch settings inputs prepared)).run =
      (launch settings inputs prepared).bind fun result => Pure.pure (Except.ok result) := rfl
    simp only [lifted, run_bind]
    rfl

private theorem run_execute (settings : Settings) (inputs : Inputs) (machine : Machine) :
    (execute settings inputs).run.run machine =
      if inputs.clips.length ≠ inputs.request.clips.length then
        (.error (.clipCount inputs.request.clips.length inputs.clips.length), machine)
      else match (makeWorkspace settings).run machine with
        | (.error fault, after) => (.error (.disk fault), after)
        | (.ok workspace, made) =>
          (leave workspace ((work settings inputs workspace).run.run made).1).run
            ((work settings inputs workspace).run.run made).2 := by
  unfold execute
  change Job.run (if _ then _ else _) machine = _
  split
  · rfl
  · refine (run_bind (makeWorkspace settings) _ machine).trans ?_
    obtain ⟨result, made⟩ := (makeWorkspace settings).run machine
    cases result with
    | error fault => rfl
    | ok workspace => exact run_bind (work settings inputs workspace).run _ made

private theorem run_leave {result : Except Fault Result} (ends : result ≠ .error .endless) (workspace : String)
    (machine : Machine) : (leave workspace result).run machine = (result, cleared workspace machine) := by
  rw [leave_ended ends]
  rfl

theorem render_course (settings : Settings) (inputs : Inputs) (machine : Machine) :
    Course settings inputs machine ((render settings inputs).run machine) := by
  have engine : (render settings inputs).run machine = match (findEngine settings.engine).run.run machine with
      | (.error fault, after) => (unfinished .rejected inputs.request fault, after)
      | (.ok _, after) =>
        (told inputs.request ((execute settings inputs).run.run after).1, ((execute settings inputs).run.run after).2) := by
    refine (run_bind (findEngine settings.engine).run _ machine).trans ?_
    obtain ⟨result, after⟩ := (findEngine settings.engine).run.run machine
    cases result with
    | error fault => rfl
    | ok found => exact run_bind (execute settings inputs).run _ after
  rw [engine, run_findEngine]
  cases there : (machine.programs.lookup settings.engine).isSome with
  | false => exact .rejected (Option.not_isSome_iff_eq_none.mp (by simp [there]))
  | true =>
    simp only [if_true, run_execute]
    by_cases same : inputs.clips.length = inputs.request.clips.length
    · rw [if_neg (not_not.mpr same)]
      rcases opened : (makeWorkspace settings).run machine with ⟨result, made⟩
      cases result with
      | error fault => exact .roomless there same opened
      | ok workspace =>
        simp only [run_work]
        rcases arrived : (prepare settings inputs workspace).run.run made with ⟨result, after⟩
        cases result with
        | ok prepared => exact .launched there same opened arrived
        | error fault =>
          by_cases endless : fault = .endless
          · subst endless
            exact .stuck there same opened arrived
          · rw [run_leave (fun same => endless (Except.error.inj same)), told_failed endless]
            exact .unprepared there same opened arrived endless
    · rw [if_pos same]
      exact .miscounted there same

end Montage.Proofs.RenderCourse
