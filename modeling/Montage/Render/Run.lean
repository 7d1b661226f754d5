import Montage.Base64
import Montage.Command
import Montage.Render.Audit
import Montage.Render.Naming
import Montage.Render.Probe
import Montage.Render.Settings
import Montage.Report
import Montage.Subtitle.Document

/-! A render from its inputs to its report: stage the inputs, build the command, reserve the output
and a log, run the engine, and look at what it left. The staged inputs are removed whatever
happens; only the log and the output stay. -/

namespace Montage.Render

structure Upload where
  name : String
  content : ByteArray

/-- What a render works on. The clips come in the order of the request. -/
structure Inputs where
  project : String
  request : Request
  source : Upload
  clips : List Upload

inductive State where
  | preparing
  | invoking
  | succeeded
  | failed
  | timedOut
  /-- There is no engine, so that nothing was begun. -/
  | rejected
  deriving DecidableEq, Repr

namespace State

def name : State → String
  | preparing => "preparing"
  | invoking => "invoking"
  | succeeded => "succeeded"
  | failed => "failed"
  | timedOut => "timed_out"
  | rejected => "rejected"

def isFinal : State → Bool
  | preparing | invoking => false
  | succeeded | failed | timedOut | rejected => true

end State

/-- The state in which a render ended, and what the client is told. -/
structure Result where
  state : State
  report : Report
  deriving DecidableEq

def writeFile (path : String) (content : ByteArray) : Attempt Unit :=
  .ofDisk (Job.ask (.write path content))

def makeWorkspace (settings : Settings) : Job (Except DiskFault String) :=
  match settings.stagingRoot with
  | none => Job.ask (.makeWorkspace temporaryDirectory)
  | some root => do
    match ← (Job.ask (.makeDirectories root) : Job (Except DiskFault Unit)) with
    | .error fault => pure (.error fault)
    | .ok () => Job.ask (.makeWorkspace root)

/-- Stages clips, the first of which has the given index, and tells their paths. -/
def stageClips (workspace : String) (index : Nat) : List Upload → Attempt (List String)
  | [] => pure []
  | clip :: rest => do
    let path := Path.join workspace (clipName index clip.name)
    writeFile path clip.content
    let paths ← stageClips workspace (index + 1) rest
    pure (path :: paths)

def stageOverlay (workspace : String) (request : Request) : Attempt (Option String) :=
  match request.overlay with
  | none => pure none
  | some payload =>
    match Base64.decode (String.ofList (Text.trim payload.toList)).toUTF8.toList with
    | .error fault => Attempt.fail (.overlay fault.message)
    | .ok bytes => do
      let path := Path.join workspace overlayName
      writeFile path ⟨bytes.toArray⟩
      pure (some path)

/-- Stages the subtitle track, if there are cues. It starts with a byte-order mark. -/
def stageSubtitles (workspace : String) (request : Request) (canvas : Filter.Canvas) :
    Attempt (Option String) :=
  if request.cues.isEmpty then pure none
  else do
    let document := Subtitle.document request.cues request.style canvas.width canvas.height
    let path := Path.join workspace subtitlesName
    writeFile path ("\ufeff" ++ document).toUTF8
    pure (some path)

/-- Asks the prober about a file. Without a prober, or without an answer, there is nothing to tell. -/
def probe (settings : Settings) (path : String) : Job (Option MediaInfo) := do
  match ← (findProber settings.prober).run with
  | .error _ => pure none
  | .ok prober =>
    match ← (Probe.media prober path).run with
    | .error _ => pure none
    | .ok info => pure (some info)

/-- The path of the output: the name that was asked for, or a reserved one. -/
def outputPath (directory project : String) (requested : Option String) (instant : Instant) :
    Attempt String :=
  match requestedName requested with
  | some name => pure (Path.join directory name)
  | none => .ofDisk (Audit.reserve directory (defaultName project instant))

/-- How many lines of the engine's errors a report quotes. -/
def quotedLines : Nat := 10

/-- The size of the output, given what came of the engine, or why there is none. -/
def judge (settings : Settings) (path : String) (outcome : Outcome) : Attempt Nat :=
  match outcome with
  | .timedOut _ _ => Attempt.fail (.timeout settings.timeoutSeconds)
  | .completed (some 0) _ _ => do
    match ← Attempt.ofJob (Job.ask (.size path)) with
    | some (size + 1) => pure (size + 1)
    | _ => Attempt.fail .noOutput
  | .completed code _ stderr => Attempt.fail (.engineFailed code (lastLines quotedLines stderr))

/-- Runs the engine and notes in the log what came of it. A note that cannot be written is no reason
to fail. -/
def invoke (settings : Settings) (command : Command) (log : String) : Attempt Nat := do
  let started ← Attempt.ofJob
    (Job.ask (.runProgram command.program command.allArguments (some settings.timeout)))
  match started with
  | .error fault => do
    let _ ← Attempt.ofJob (Audit.note log (Audit.errorEntry (.disk fault)))
    Attempt.fail (.disk fault)
  | .ok finished => do
    let outcome := Outcome.ofFinished finished
    let _ ← Attempt.ofJob (Audit.note log (Audit.outcomeEntry outcome settings.timeoutSeconds))
    judge settings command.output outcome

/-- Removes an output that never received data. -/
def removeIfEmpty (path : String) : Job Unit := do
  match ← (Job.ask (.size path) : Job (Option Nat)) with
  | some 0 => do
    let _ ← (Job.ask (.remove path) : Job (Except DiskFault Unit))
    pure ()
  | _ => pure ()

def conclude (settings : Settings) (counts : Counts) (command : Command) (log : String) :
    Except Fault Nat → Job Result
  | .ok size => do
    let info ← probe settings command.output
    pure
      { state := .succeeded
        report :=
          { status := .ok
            message := "Video rendered successfully"
            outputName := some ((Path.fileName command.output).getD "")
            outputPath := some command.output
            size := some (.ofNat size)
            duration := info.bind (·.duration)
            counts
            logFile := some log } }
  | .error fault => do
    removeIfEmpty command.output
    pure
      { state := if fault matches .timeout _ then .timedOut else .failed
        report :=
          { status := .error
            message := fault.message
            counts
            logFile := some log
            command := some command.line } }

/-- The files that were staged, and the track of subtitles. -/
structure Staged where
  inputs : Command.Inputs
  subtitles : Option String

def stage (settings : Settings) (inputs : Inputs) (workspace : String) : Attempt Staged := do
  let source := Path.join workspace (sourceName inputs.source.name)
  writeFile source inputs.source.content
  let clips ← stageClips workspace 0 inputs.clips
  let overlay ← stageOverlay workspace inputs.request
  let subtitles ← stageSubtitles workspace inputs.request settings.canvas
  pure { inputs := { source, clips, overlay }, subtitles }

def compile (settings : Settings) (plan : Filter.Plan) : Attempt Filter.Compiled :=
  match plan.compile settings.canvas with
  | some result => Attempt.ofExcept .graph result
  | none => Attempt.fail .endless

/-- Stages the inputs, runs the engine on them, and tells what it left. A source counts as having
sound unless the prober says otherwise. -/
def work (settings : Settings) (inputs : Inputs) (workspace : String) : Attempt Result := do
  let staged ← stage settings inputs workspace
  let info ← Attempt.ofJob (probe settings staged.inputs.source)
  let hasSound := (info.map (·.hasSound)).getD true
  let compiled ← compile settings (Filter.Plan.ofRequest inputs.request staged.subtitles hasSound)
  let instant ← Attempt.ofJob (Job.ask .now)
  let directory := settings.outputDirectory inputs.project
  Attempt.ofDisk (Job.ask (.makeDirectories directory))
  let output ← outputPath directory inputs.project inputs.request.outputName instant
  let command ← Attempt.ofExcept .graph
    (Command.assemble settings.engine staged.inputs compiled settings.encoding output)
  let log ← Attempt.ofDisk (Audit.create directory inputs.project output command.line instant)
  let result ← Attempt.ofJob (invoke settings command log).run
  Attempt.ofJob (conclude settings inputs.request.counts command log result)

/-- Removes what was staged. Work without an end never comes to that. -/
def leave (workspace : String) : Except Fault Result → Job (Except Fault Result)
  | .error .endless => pure (.error .endless)
  | result => do
    let _ ← (Job.ask (.removeTree workspace) : Job Unit)
    pure result

/-- Works in a directory of its own, which is removed at the end. -/
def execute (settings : Settings) (inputs : Inputs) : Attempt Result := ExceptT.mk do
  if inputs.clips.length ≠ inputs.request.clips.length then
    pure (.error (.clipCount inputs.request.clips.length inputs.clips.length))
  else
    match ← makeWorkspace settings with
    | .error fault => pure (.error (.disk fault))
    | .ok workspace => do
      let result ← (work settings inputs workspace).run
      leave workspace result

/-- The result of a render that ended before the engine was run, or that does not end: such a render
stays in the state that it was in, and its report is never told. -/
def unfinished (state : State) (request : Request) (fault : Fault) : Result where
  state := state
  report := .failure fault.message request.counts

def told (request : Request) : Except Fault Result → Result
  | .error .endless => unfinished .preparing request .endless
  | .error fault => unfinished .failed request fault
  | .ok result => result

/-- Renders. Every outcome is a result; without an engine nothing is begun. -/
def render (settings : Settings) (inputs : Inputs) : Job Result := do
  match ← (findEngine settings.engine).run with
  | .error fault => pure (unfinished .rejected inputs.request fault)
  | .ok _ => do
    let result ← (execute settings inputs).run
    pure (told inputs.request result)

end Montage.Render
