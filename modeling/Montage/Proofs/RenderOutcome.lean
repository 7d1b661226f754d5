import Montage.Proofs.RenderArrival

/-! What comes of a render, and what is told of it. The engine's end and what lies at the path of the
output afterwards decide; the report never says anything else. -/

namespace Montage.Proofs.RenderOutcome
open Montage.Render JobLogic DiskPlaces RenderCourse RenderArrival

variable {settings : Settings} {inputs : Inputs} {prepared : Prepared} {machine ready : Machine}

/-- The answer to starting the engine, and the machine when it has ended. -/
def startEngine (settings : Settings) (prepared : Prepared) (ready : Machine) : Except DiskFault Finished × Machine :=
  ready.perform (.runProgram prepared.command.program prepared.command.allArguments (some settings.timeout))

def entry (settings : Settings) : Except DiskFault Finished → String
  | .error fault => Audit.errorEntry (.disk fault)
  | .ok finished => Audit.outcomeEntry (.ofFinished finished) settings.timeoutSeconds

/-- The machine when the log has been told what came of the engine. -/
def noted (settings : Settings) (prepared : Prepared) (ready : Machine) : Machine :=
  let (started, ended) := startEngine settings prepared ready
  (ended.perform (.append prepared.log (entry settings started).toUTF8)).2

def judgedOutcome (settings : Settings) (size : Option Nat) : Outcome → Except Fault Nat
  | .timedOut _ _ => .error (.timeout settings.timeoutSeconds)
  | .completed (some 0) _ _ =>
    match size with
    | some (bytes + 1) => .ok (bytes + 1)
    | _ => .error .noOutput
  | .completed code _ stderr => .error (.engineFailed code (lastLines quotedLines stderr))

def judged (settings : Settings) (size : Option Nat) : Except DiskFault Finished → Except Fault Nat
  | .error fault => .error (.disk fault)
  | .ok finished => judgedOutcome settings size (.ofFinished finished)

/-- The size that decides is asked for when the engine has ended and the log is complete. -/
def verdict (settings : Settings) (prepared : Prepared) (ready : Machine) : Except Fault Nat :=
  judged settings ((noted settings prepared ready).disk.size? prepared.command.output)
    (startEngine settings prepared ready).1

private theorem run_ofJob (job : Job α) (machine : Machine) :
    (Attempt.ofJob job).run.run machine = (.ok (job.run machine).1, (job.run machine).2) :=
  run_bind job _ machine

private theorem run_ask (action : Action) (machine : Machine) : (Job.ask action).run machine = machine.perform action :=
  rfl

private theorem run_judge (outcome : Outcome) (path : String) (machine : Machine) :
    (judge settings path outcome).run.run machine =
      (judgedOutcome settings (machine.disk.size? path) outcome, machine) := by
  cases outcome with
  | timedOut stdout stderr => rfl
  | completed code stdout stderr =>
    by_cases zero : code = some 0
    · subst zero
      have asked : (Attempt.ofJob (Job.ask (.size path))).run.run machine = (.ok (machine.disk.size? path), machine) :=
        rfl
      simp only [judge, judgedOutcome, run_attempt_bind, asked]
      rcases machine.disk.size? path with _ | _ | bytes <;> rfl
    · have failed : judge settings path (.completed code stdout stderr) =
          Attempt.fail (.engineFailed code (lastLines quotedLines stderr)) := by
        rw [judge]
        simpa using zero
      have told : judgedOutcome settings (machine.disk.size? path) (.completed code stdout stderr) =
          .error (.engineFailed code (lastLines quotedLines stderr)) := by
        rw [judgedOutcome]
        simpa using zero
      rw [failed, told]
      rfl

private theorem run_invoke (settings : Settings) (prepared : Prepared) (ready : Machine) :
    (invoke settings prepared.command prepared.log).run.run ready =
      (verdict settings prepared ready, noted settings prepared ready) := by
  unfold invoke
  rw [run_attempt_bind, run_ofJob, run_ask]
  unfold verdict noted startEngine
  generalize ready.perform (.runProgram prepared.command.program prepared.command.allArguments _) = answered
  obtain ⟨started | started, ended⟩ := answered
  · rfl
  · simp only [run_attempt_bind, run_ofJob, run_judge]
    rfl

theorem run_launch (settings : Settings) (inputs : Inputs) (prepared : Prepared) (ready : Machine) :
    (launch settings inputs prepared).run ready =
      (conclude settings inputs.request.counts prepared.command prepared.log (verdict settings prepared ready)).run
        (noted settings prepared ready) := by
  refine (run_bind (invoke settings prepared.command prepared.log).run _ ready).trans ?_
  rw [run_invoke]

theorem noted_disk {head : ByteArray}
    (located : (startEngine settings prepared ready).2.disk.locate prepared.log = .ok (placeOf prepared.log))
    (there : (startEngine settings prepared ready).2.disk.at? (placeOf prepared.log) = some (.file head)) :
    (noted settings prepared ready).disk = (startEngine settings prepared ready).2.disk.put (placeOf prepared.log)
      (.file (head ++ (entry settings (startEngine settings prepared ready).1).toUTF8)) := by
  simp [noted, Machine.perform, Machine.change, Disk.append, located, there]

/-- A length that can be told is a number of seconds. -/
def Measured (duration : Option Float) : Prop :=
  ∀ seconds, duration = some seconds → seconds.isFinite = true ∧ 0 ≤ seconds

private theorem info_measured (findings : Probe.Findings) : Measured findings.info.duration := by
  intro seconds told
  obtain ⟨text, -, read⟩ := Option.bind_eq_some_iff.mp told
  obtain ⟨-, kept⟩ := Option.filter_eq_some_iff.mp read
  simpa using kept

private theorem interpret_measured {prober : String} {answer : Except DiskFault Finished} {info : MediaInfo}
    (known : Probe.interpret prober answer = .ok info) : Measured info.duration := by
  unfold Probe.interpret at known
  split at known
  · cases known
  · cases known
  · split at known
    · split at known
      next findings _ =>
        cases known
        exact info_measured findings
      · cases known
    · cases known

private theorem probe_measured (settings : Settings) (path : String) :
    Ensures (probe settings path) machine fun info _ => Measured (info.bind (·.duration)) := by
  have unknown : Measured ((none : Option MediaInfo).bind (·.duration)) := by
    intro seconds told
    cases told
  have found : Ensures (findProber settings.prober).run machine fun _ _ => True := ⟨trivial⟩
  apply Ensures.bind found
  rintro (fault | prober) after -
  · exact Ensures.pure unknown
  · have media : Ensures (Probe.media prober path).run after fun result _ =>
        ∀ info, result = .ok info → Measured info.duration := by
      apply Ensures.bind (Ensures.asked _)
      rintro there last ⟨-, rfl⟩
      split
      · apply Ensures.bind (Ensures.asked _)
        rintro answer last ⟨-, rfl⟩
        exact Ensures.pure fun info known => interpret_measured known
      · exact Ensures.pure fun info known => by cases known
    apply Ensures.bind media
    intro result last known
    cases result with
    | error fault => exact Ensures.pure unknown
    | ok info => exact Ensures.pure (known info rfl)

/-- What is told of a render that started the engine. -/
inductive Told (inputs : Inputs) (prepared : Prepared) : Except Fault Nat → Result → Prop
  | delivered {bytes : Nat} {duration : Option Float} (measured : Measured duration) :
      Told inputs prepared (.ok bytes)
        { state := .succeeded
          report :=
            { status := .ok
              message := "Video rendered successfully"
              outputName := some ((Path.fileName prepared.command.output).getD "")
              outputPath := some prepared.command.output
              size := some (.ofNat bytes)
              duration
              counts := inputs.request.counts
              logFile := some prepared.log } }
  | broken {fault : Fault} :
      Told inputs prepared (.error fault)
        { state := if fault matches .timeout _ then .timedOut else .failed
          report :=
            { status := .error
              message := fault.message
              counts := inputs.request.counts
              logFile := some prepared.log
              command := some prepared.command.line } }

theorem launch_told (settings : Settings) (inputs : Inputs) (prepared : Prepared) (ready : Machine) :
    Told inputs prepared (verdict settings prepared ready) ((launch settings inputs prepared).run ready).1 := by
  rw [run_launch]
  generalize verdict settings prepared ready = outcome
  cases outcome with
  | ok bytes =>
    have told : Ensures (conclude settings inputs.request.counts prepared.command prepared.log (.ok bytes))
        (noted settings prepared ready) fun result _ => Told inputs prepared (.ok bytes) result := by
      apply Ensures.bind (probe_measured settings prepared.command.output)
      intro info after measured
      exact Ensures.pure (.delivered measured)
    exact told.holds
  | error fault =>
    have cleared : Ensures (removeIfEmpty prepared.command.output) (noted settings prepared ready) fun _ _ => True :=
      ⟨trivial⟩
    have told : Ensures (conclude settings inputs.request.counts prepared.command prepared.log (.error fault))
        (noted settings prepared ready) fun result _ => Told inputs prepared (.error fault) result := by
      apply Ensures.bind cleared
      intro _ after _
      exact Ensures.pure .broken
    exact told.holds

/-- There is something with data at a path. A directory counts as well. -/
def Filled (disk : Disk) (path : String) : Prop :=
  disk.find path = .ok .directory ∨ ∃ content, disk.find path = .ok (.file content) ∧ 0 < content.size

theorem filled_iff {disk : Disk} {path : String} :
    Filled disk path ↔ ∃ bytes, disk.size? path = some bytes ∧ 0 < bytes := by
  unfold Filled Disk.size?
  cases disk.find path with
  | error fault => simp
  | ok entry => cases entry <;> simp [Disk.directorySize]

/-- The engine ended in a certain way. -/
def Ends (settings : Settings) (prepared : Prepared) (ready : Machine) (ending : Ending) : Prop :=
  ∃ finished, (startEngine settings prepared ready).1 = .ok finished ∧ finished.ending = ending

theorem judged_ok_iff {size : Option Nat} {started : Except DiskFault Finished} {bytes : Nat} :
    judged settings size started = .ok bytes ↔
      (∃ finished, started = .ok finished ∧ finished.ending = .exited 0) ∧ size = some bytes ∧ 0 < bytes := by
  rcases started with fault | ⟨ending, stdout, stderr⟩
  · simp [judged]
  · cases ending with
    | exited code =>
      by_cases zero : code = 0
      · subst zero
        simp only [judged, judgedOutcome, Outcome.ofFinished, Ending.code]
        rcases size with _ | _ | size
        · simp
        · simp
          omega
        · simp
          omega
      · simp [judged, judgedOutcome, Outcome.ofFinished, Ending.code, zero]
    | signalled signal => simp [judged, judgedOutcome, Outcome.ofFinished, Ending.code]
    | timedOut => simp [judged, judgedOutcome, Outcome.ofFinished]

theorem judged_timeout_iff {size : Option Nat} {started : Except DiskFault Finished} :
    (∃ seconds, judged settings size started = .error (.timeout seconds)) ↔
      ∃ finished, started = .ok finished ∧ finished.ending = .timedOut := by
  rcases started with fault | ⟨ending, stdout, stderr⟩
  · simp [judged]
  · cases ending with
    | exited code =>
      by_cases zero : code = 0
      · subst zero
        rcases size with _ | _ | size <;> simp [judged, judgedOutcome, Outcome.ofFinished, Ending.code]
      · simp [judged, judgedOutcome, Outcome.ofFinished, Ending.code, zero]
    | signalled signal => simp [judged, judgedOutcome, Outcome.ofFinished, Ending.code]
    | timedOut => simp [judged, judgedOutcome, Outcome.ofFinished]

theorem verdict_ok_iff : (∃ bytes, verdict settings prepared ready = .ok bytes) ↔
    Ends settings prepared ready (.exited 0) ∧ Filled (noted settings prepared ready).disk prepared.command.output := by
  simp only [verdict, judged_ok_iff, filled_iff, Ends]
  constructor
  · rintro ⟨bytes, exits, size⟩
    exact ⟨exits, bytes, size⟩
  · rintro ⟨exits, bytes, size⟩
    exact ⟨bytes, exits, size⟩

theorem verdict_timeout_iff : (∃ seconds, verdict settings prepared ready = .error (.timeout seconds)) ↔
    Ends settings prepared ready .timedOut :=
  judged_timeout_iff

private theorem never_reached (missing : machine.programs.lookup settings.engine = none) :
    ∀ prepared ready, ¬ Reaches settings inputs machine prepared ready := by
  intro prepared ready reached
  exact Option.isSome_iff_ne_none.mp (reaches_iff.mp reached).1 missing

/-- The state in which a render ends, by what happened. One that is stuck never gets beyond preparing. -/
structure Classified (settings : Settings) (inputs : Inputs) (machine : Machine) (state : State) : Prop where
  preparing : state = .preparing ↔ Stuck settings inputs machine
  rejected : state = .rejected ↔ machine.programs.lookup settings.engine = none
  succeeded : state = .succeeded ↔ ∃ prepared ready, Reaches settings inputs machine prepared ready ∧
    Ends settings prepared ready (.exited 0) ∧ Filled (noted settings prepared ready).disk prepared.command.output
  timedOut : state = .timedOut ↔ ∃ prepared ready, Reaches settings inputs machine prepared ready ∧
    Ends settings prepared ready .timedOut
  failed : state = .failed ↔
    ¬ Stuck settings inputs machine ∧ state ≠ .rejected ∧ state ≠ .succeeded ∧ state ≠ .timedOut

/-- What a report has to say for the state in which its render ended. -/
structure Reported (settings : Settings) (inputs : Inputs) (machine : Machine) (result : Result) : Prop where
  status : result.report.status = .ok ↔ result.state = .succeeded
  outputName : result.report.outputName.isSome ↔ result.state = .succeeded
  outputPath : result.report.outputPath.isSome ↔ result.state = .succeeded
  size : result.report.size.isSome ↔ result.state = .succeeded
  /-- The output that is told of is the one that was looked at. -/
  output : ∀ prepared ready, Reaches settings inputs machine prepared ready → result.state = .succeeded →
    result.report.outputPath = some prepared.command.output ∧
      ∃ bytes, 0 < bytes ∧ (noted settings prepared ready).disk.size? prepared.command.output = some bytes ∧
        result.report.size = some (.ofNat bytes)
  duration : ∀ seconds, result.report.duration = some seconds →
    result.state = .succeeded ∧ seconds.isFinite = true ∧ 0 ≤ seconds
  logFile : ∀ log, result.report.logFile = some log ↔
    ∃ command ready, Reaches settings inputs machine ⟨command, log⟩ ready
  command : result.report.command.isSome ↔ result.report.logFile.isSome ∧ result.state ≠ .succeeded
  counts : result.report.counts = { segments := .ofNat inputs.request.segments.length
                                    clips := .ofNat inputs.request.clips.length
                                    cues := .ofNat inputs.request.cues.length }

theorem reached_iff {holds : Prepared → Machine → Prop} (reached : Reaches settings inputs machine prepared ready) :
    (∃ other last, Reaches settings inputs machine other last ∧ holds other last) ↔ holds prepared ready := by
  constructor
  · rintro ⟨other, last, reaches, known⟩
    obtain ⟨rfl, rfl⟩ := reaches_unique reached reaches
    exact known
  · intro known
    exact ⟨prepared, ready, reached, known⟩

private theorem launched_classified {result : Result} (reached : Reaches settings inputs machine prepared ready)
    (told : Told inputs prepared (verdict settings prepared ready) result) :
    Classified settings inputs machine result.state := by
  have found := Option.isSome_iff_ne_none.mp (reaches_iff.mp reached).1
  have succeeded := @verdict_ok_iff settings prepared ready
  have timedOut := @verdict_timeout_iff settings prepared ready
  have ends : ¬ Stuck settings inputs machine := fun stuck => stuck_unreached stuck prepared ready reached
  generalize verdict settings prepared ready = outcome at told succeeded timedOut
  refine ⟨?_, ?_, ?_, ?_, ?_⟩
  · simp only [ends, iff_false]
    cases told with
    | delivered => simp
    | @broken fault => cases fault <;> simp
  · simp only [found, iff_false]
    cases told with
    | delivered => simp
    | @broken fault => cases fault <;> simp
  · rw [reached_iff reached, ← succeeded]
    cases told with
    | delivered => simp
    | @broken fault => cases fault <;> simp
  · rw [reached_iff reached, ← timedOut]
    cases told with
    | delivered => simp
    | @broken fault => cases fault <;> simp
  · simp only [ends, not_false_eq_true, true_and]
    cases told with
    | delivered => simp
    | @broken fault => cases fault <;> simp

private theorem broken_unfinished (fault : Fault) :
    (if fault matches .timeout _ then State.timedOut else .failed) ≠ .succeeded := by
  cases fault <;> simp

private theorem launched_reported {result : Result} (reached : Reaches settings inputs machine prepared ready)
    (told : Told inputs prepared (verdict settings prepared ready) result) :
    Reported settings inputs machine result := by
  -- There is but one log, for a render comes to its engine in one way only.
  have logged : ∀ log, (some prepared.log = some log ↔
      ∃ command last, Reaches settings inputs machine ⟨command, log⟩ last) := by
    intro log
    constructor
    · intro same
      cases same
      exact ⟨prepared.command, ready, reached⟩
    · rintro ⟨command, last, reaches⟩
      obtain ⟨rfl, -⟩ := reaches_unique reached reaches
      rfl
  generalize outcome : verdict settings prepared ready = verdict at told
  cases told with
  | @delivered bytes duration measured =>
    refine ⟨by simp, by simp, by simp, by simp, ?_, ?_, logged, by simp, rfl⟩
    · intro other last reaches _
      obtain ⟨rfl, rfl⟩ := reaches_unique reached reaches
      obtain ⟨-, size, positive⟩ := judged_ok_iff.mp outcome
      exact ⟨rfl, bytes, positive, size, rfl⟩
    · intro seconds told
      exact ⟨rfl, measured seconds told⟩
  | @broken fault =>
    have unfinished := broken_unfinished fault
    refine ⟨by simp [unfinished], by simp [unfinished], by simp [unfinished], by simp [unfinished], ?_, ?_, logged,
      by simp [unfinished], rfl⟩
    · intro other last reaches succeeded
      exact absurd succeeded unfinished
    · intro seconds told
      cases told

theorem render_classified (settings : Settings) (inputs : Inputs) (machine : Machine) :
    Classified settings inputs machine ((render settings inputs).run machine).1.state := by
  have ended := render_ended settings inputs machine
  generalize ((render settings inputs).run machine).1 = result at ended
  cases ended with
  | launched reached => exact launched_classified reached (launch_told settings inputs _ _)
  | rejected missing =>
    have never : ∀ prepared ready, ¬ Reaches settings inputs machine prepared ready := never_reached missing
    have ends : ¬ Stuck settings inputs machine := fun stuck =>
      Option.isSome_iff_ne_none.mp (stuck_iff.mp stuck).1 missing
    constructor <;> simp [unfinished, missing, never, ends]
  | stopped found never ends => constructor <;> simp [unfinished, found, never, ends]
  | stuck stuck =>
    have found := Option.isSome_iff_ne_none.mp (stuck_iff.mp stuck).1
    have never := stuck_unreached stuck
    constructor <;> simp [unfinished, found, never, stuck]

theorem render_reported (settings : Settings) (inputs : Inputs) (machine : Machine) :
    Reported settings inputs machine ((render settings inputs).run machine).1 := by
  have ended := render_ended settings inputs machine
  generalize ((render settings inputs).run machine).1 = result at ended
  cases ended with
  | launched reached => exact launched_reported reached (launch_told settings inputs _ _)
  | rejected missing =>
    have never : ∀ prepared ready, ¬ Reaches settings inputs machine prepared ready := never_reached missing
    constructor <;> simp [unfinished, Report.failure, Request.counts, never]
  | stopped found never => constructor <;> simp [unfinished, Report.failure, Request.counts, never]
  | stuck stuck =>
    have never := stuck_unreached stuck
    constructor <;> simp [unfinished, Report.failure, Request.counts, never]

/-- However a render goes, its state is determined by what happened, and the report of one that comes to an end
agrees with the state. -/
theorem render_outcome (settings : Settings) (inputs : Inputs) (machine : Machine) :
    Classified settings inputs machine ((render settings inputs).run machine).1.state ∧
      (Stuck settings inputs machine ∨ Reported settings inputs machine ((render settings inputs).run machine).1) :=
  ⟨render_classified settings inputs machine, .inr (render_reported settings inputs machine)⟩

/-- A machine whose engine reports success and writes nothing. In the directory of the outputs lies one entry. -/
def idleMachine (name : String) (entry : Entry) : Machine where
  disk := ⟨[(["tmp"], .directory), (["data"], .directory), (["data", "p"], .directory),
    (["data", "p", "rendered"], .directory), (["data", "p", "rendered", name], entry)]⟩
  programs := [("ffmpeg", { behave := fun _ _ => {} })]

/-- A film to be rendered as it is. -/
def plainInputs (outputName : Option String) : Inputs where
  project := "p"
  request := { source := "s", outputName }
  source := ⟨"s.mp4", ⟨#[1]⟩⟩
  clips := []

/-- A directory in the place of the output is taken for the output, so that success does not mean a file. -/
theorem directory_delivered :
    ((render {} (plainInputs (some "film.mp4"))).run (idleMachine "film.mp4" .directory)).1.state = .succeeded ∧
      ((render {} (plainInputs (some "film.mp4"))).run (idleMachine "film.mp4" .directory)).1.report.size = some 4096 ∧
      ((render {} (plainInputs (some "film.mp4"))).run (idleMachine "film.mp4" .directory)).2.disk.find
        "data/p/rendered/film.mp4" matches .ok .directory := by
  decide +kernel

end Montage.Proofs.RenderOutcome
