import Montage.Proofs.RenderNames
import Montage.Proofs.RenderOutcome

/-! Logs are permanent. A log that a render has left is complete, and no later render of the project changes
it, as long as no output is asked for under a name that a log can have. -/

namespace Montage.Proofs.RenderLogs
open Montage.Render JobLogic DiskFrame DiskPlaces DiskTree PathJoin JobFrame RenderSteps RenderWorkspace RenderCourse
  RenderLeavings RenderNames RenderArrival RenderOutcome

/-- A call to render: what it is given, when it comes, and the programs that it finds. -/
structure Call where
  inputs : Inputs
  clock : Instant
  programs : List (String × Program)

def Call.start (call : Call) (machine : Machine) : Machine :=
  { machine with clock := call.clock, programs := call.programs }

def Call.run (settings : Settings) (call : Call) (machine : Machine) : Result × Machine :=
  (render settings call.inputs).run (call.start machine)

def runCalls (settings : Settings) (calls : List Call) (machine : Machine) : Machine :=
  calls.foldl (fun machine call => (call.run settings machine).2) machine

/-- No output is asked for under a name that is tried for logs. -/
def SparesLogs (request : Request) : Prop :=
  ∀ instant, ∀ name ∈ Audit.candidates (Audit.fileName instant), requestedName request.outputName ≠ some name

/-- The outputs of a project do not lie in a directory that is made to stage in. -/
def Outside (settings : Settings) (project : String) : Prop :=
  ∀ workspace, RenderLayout.IsWorkspace (stagingDirectory settings) workspace →
    ¬ placeOf workspace <+: placeOf (settings.outputDirectory project)

/-- The text of a log when its render has ended: the header with the command, and what came of the command. -/
def logText (settings : Settings) (project : String) (prepared : Prepared) (ready : Machine) (instant : Instant) :
    ByteArray :=
  (Audit.header project prepared.command.output prepared.command.line instant).toUTF8 ++
    (entry settings (startEngine settings prepared ready).1).toUTF8

variable {settings : Settings} {inputs : Inputs} {machine ready : Machine} {prepared : Prepared}

theorem output_apart {output log : String} (spares : SparesLogs inputs.request)
    (chosen : Chosen settings inputs output) (logged : IsLog (settings.outputDirectory inputs.project) log) :
    placeOf output ≠ placeOf log := by
  obtain ⟨last, named, asked⟩ := chosen_last chosen
  obtain ⟨instant, logName, tried, rfl⟩ := logged
  have text := (fileName_dotted instant).candidate suffix_log tried
  intro same
  have lasts := placeOf_last named
  rw [same, placeOf_last (fileName_join _ (fileName_self (text.plain suffix_log)))] at lasts
  cases lasts
  rcases asked with requested | video
  · exact spares instant last tried requested
  · exact dotted_apart video text rfl

private theorem log_kept {log : String} {content : ByteArray} (rooted : Rooted machine.disk)
    (spares : SparesLogs inputs.request) (logged : IsLog (settings.outputDirectory inputs.project) log)
    (there : machine.disk.at? (placeOf log) = some (.file content)) :
    ((render settings inputs).run machine).2.disk.at? (placeOf log) = some (.file content) := by
  obtain ⟨output, _, chosen, -, frame⟩ := render_frame settings inputs machine rooted
  apply frame.kept ?_ there
  rintro ((same | ⟨-, free⟩) | ⟨-, free⟩)
  · exact output_apart spares chosen logged same.symm
  · cases free.symm.trans there
  · cases free.symm.trans there

private theorem log_written (spares : SparesLogs inputs.request) (outside : Outside settings inputs.project)
    (reached : Reaches settings inputs machine prepared ready) :
    IsLog (settings.outputDirectory inputs.project) prepared.log ∧ machine.disk.at? (placeOf prepared.log) = none ∧
      ∃ instant, ((render settings inputs).run machine).2.disk.at? (placeOf prepared.log) =
        some (.file (logText settings inputs.project prepared ready instant)) := by
  obtain ⟨workspace, made, opened, arrived, ran⟩ := reaches_course reached
  have room := makeWorkspace_ok opened
  have readied := prepare_ok arrived
  obtain ⟨instant, header⟩ := readied.header
  have apart := output_apart spares readied.chosen readied.logged
  refine ⟨readied.logged, readied.unused room, instant, ?_⟩
  let nowhere (_ : List String) : Prop := False
  let only (place : List String) : Prop := place = placeOf prepared.command.output
  have inside : only (placeOf prepared.command.output) := rfl
  have started : Frame nowhere only ready.disk (startEngine settings prepared ready).2.disk := by
    apply runProgram_frame ready
    intro path last
    rw [Command.allArguments, List.getLast?_concat] at last
    rw [← Option.some.inj last]
  have there := started.kept apart.symm header
  have complete : (noted settings prepared ready).disk.at? (placeOf prepared.log) =
      some (.file (logText settings inputs.project prepared ready instant)) := by
    rw [noted_disk (locate_firm started.firm readied.located) there]
    exact at?_put_same _ _ (inside_of_not_directory (by rw [there]; simp))
  have concluded : Frame nowhere only (noted settings prepared ready).disk
      ((launch settings inputs prepared).run ready).2.disk := by
    rw [run_launch]
    exact run_frame (conclude_within settings _ _ _ inside) _
  have elsewhere : ¬ placeOf workspace <+: placeOf prepared.log := by
    obtain ⟨name, dotted, path⟩ := log_named readied.logged
    intro below
    have place := placeOf_join (settings.outputDirectory inputs.project) (dotted.plain suffix_log)
    rw [path, place, List.prefix_concat_iff] at below
    rcases below with same | inside
    · rw [path, place, ← same, readied.frame.firm _ room.directory] at header
      cases header
    · exact outside workspace room.named inside
  rw [ran]
  exact (removeTree_outside _ elsewhere).trans (concluded.kept apart.symm complete)

section Calls
variable {project : String}

structure Proper (project : String) (call : Call) : Prop where
  project : call.inputs.project = project
  spares : SparesLogs call.inputs.request

private theorem runCalls_append (settings : Settings) (front rest : List Call) (machine : Machine) :
    runCalls settings (front ++ rest) machine = runCalls settings rest (runCalls settings front machine) :=
  List.foldl_append

private theorem runCalls_cons (settings : Settings) (call : Call) (rest : List Call) (machine : Machine) :
    runCalls settings (call :: rest) machine = runCalls settings rest (call.run settings machine).2 :=
  rfl

theorem call_rooted (settings : Settings) (call : Call) (rooted : Rooted machine.disk) :
    Rooted (call.run settings machine).2.disk := by
  have start : Rooted (call.start machine).disk := rooted
  exact rooted_run (render settings call.inputs) start

private theorem runCalls_rooted (settings : Settings) (calls : List Call) (rooted : Rooted machine.disk) :
    Rooted (runCalls settings calls machine).disk := by
  induction calls generalizing machine with
  | nil => exact rooted
  | cons call rest ih => exact ih (call_rooted settings call rooted)

private theorem call_keeps {call : Call} {log : String} {content : ByteArray} (rooted : Rooted machine.disk)
    (proper : Proper project call) (logged : IsLog (settings.outputDirectory project) log)
    (there : machine.disk.at? (placeOf log) = some (.file content)) :
    (call.run settings machine).2.disk.at? (placeOf log) = some (.file content) := by
  obtain ⟨rfl, spares⟩ := proper
  have start : Rooted (call.start machine).disk := rooted
  have found : (call.start machine).disk.at? (placeOf log) = some (.file content) := there
  exact log_kept start spares logged found

private theorem runCalls_keep {log : String} {content : ByteArray} {calls : List Call} (rooted : Rooted machine.disk)
    (proper : ∀ call ∈ calls, Proper project call)
    (logged : IsLog (settings.outputDirectory project) log)
    (there : machine.disk.at? (placeOf log) = some (.file content)) :
    (runCalls settings calls machine).disk.at? (placeOf log) = some (.file content) := by
  induction calls generalizing machine with
  | nil => exact there
  | cons call rest ih =>
    have first := call_keeps rooted (proper call List.mem_cons_self) logged there
    exact ih (call_rooted settings call rooted) (fun later member => proper later (List.mem_cons_of_mem _ member)) first

/-- The log that one of a sequence of calls reports: new when the call comes, complete after it and after each of
the later calls, and a file of its own among the outputs of all calls and the logs of the later ones. -/
structure Permanent (settings : Settings) (project : String) (front : List Call) (call : Call) (rest : List Call)
    (machine : Machine) (log : String) : Prop where
  fresh : (runCalls settings front machine).disk.at? (placeOf log) = none
  complete : ∃ prepared ready instant,
    Reaches settings call.inputs (call.start (runCalls settings front machine)) prepared ready ∧ prepared.log = log ∧
      ∀ later, later <+: rest → (runCalls settings (front ++ call :: later) machine).disk.at? (placeOf log) =
        some (.file (logText settings project prepared ready instant))
  outputs : ∀ other ∈ front ++ call :: rest, ∀ output, Chosen settings other.inputs output → placeOf output ≠ placeOf log
  logs : ∀ middle second last, rest = middle ++ second :: last → ∀ other,
    (second.run settings (runCalls settings (front ++ call :: middle) machine)).1.report.logFile = some other →
      placeOf other ≠ placeOf log

private theorem call_logged {call : Call} {log : String} (proper : Proper project call)
    (outside : Outside settings project)
    (reported : (call.run settings machine).1.report.logFile = some log) :
    IsLog (settings.outputDirectory project) log ∧ machine.disk.at? (placeOf log) = none ∧
      ∃ prepared ready instant, Reaches settings call.inputs (call.start machine) prepared ready ∧ prepared.log = log ∧
        (call.run settings machine).2.disk.at? (placeOf log) =
          some (.file (logText settings project prepared ready instant)) := by
  obtain ⟨rfl, spares⟩ := proper
  obtain ⟨command, ready, reached⟩ := ((render_reported settings call.inputs (call.start machine)).logFile log).mp reported
  obtain ⟨logged, fresh, instant, complete⟩ := log_written spares outside reached
  exact ⟨logged, fresh, ⟨command, log⟩, ready, instant, reached, rfl, complete⟩

/-- In every sequence of calls on a project, whenever they come and whatever their engines do, the logs are
files of their own, each complete when its call ends, and never different afterwards. -/
theorem logs_permanent (settings : Settings) (project : String) (calls : List Call) (machine : Machine)
    (rooted : Rooted machine.disk) (outside : Outside settings project)
    (proper : ∀ call ∈ calls, Proper project call) :
    ∀ front call rest, calls = front ++ call :: rest → ∀ log,
      (call.run settings (runCalls settings front machine)).1.report.logFile = some log →
        Permanent settings project front call rest machine log := by
  rintro front call rest rfl log reported
  have before := runCalls_rooted settings front rooted
  have after := call_rooted settings call before
  have own := proper call (by simp)
  obtain ⟨logged, fresh, prepared, ready, instant, reached, same, written⟩ := call_logged own outside reported
  have complete : ∀ later, later <+: rest → (runCalls settings (front ++ call :: later) machine).disk.at? (placeOf log) =
      some (.file (logText settings project prepared ready instant)) := by
    rintro later ⟨last, rfl⟩
    rw [runCalls_append, runCalls_cons]
    exact runCalls_keep after (fun other member => proper other (by simp [member])) logged written
  refine ⟨fresh, ⟨prepared, ready, instant, reached, same, complete⟩, ?_, ?_⟩
  · intro other member output chosen
    obtain ⟨rfl, spares⟩ := proper other member
    exact output_apart spares chosen logged
  · rintro middle second last rfl other told together
    obtain ⟨-, free, -⟩ := call_logged (proper second (by simp)) outside told
    rw [together, complete middle (List.prefix_append _ _)] at free
    cases free

def earlyCall (outputName : String) : Call where
  inputs := plainInputs (some outputName)
  clock := ⟨0, 0⟩
  programs := [("ffmpeg", { behave := fun _ _ => { writes := some ⟨#[0]⟩ } })]

def earlyMachine : Machine where
  disk := ⟨[(["tmp"], .directory), (["data"], .directory), (["data", "p"], .directory),
    (["data", "p", "rendered"], .directory)]⟩

theorem early_log_permanent : Rooted earlyMachine.disk ∧ Outside {} "p" ∧
    (∀ call ∈ [earlyCall "film.mp4", earlyCall "film.mp4"], Proper "p" call) ∧
    Permanent {} "p" [] (earlyCall "film.mp4") [earlyCall "film.mp4"] earlyMachine
      "data/p/rendered/render_log_19700101_000000_000.txt" := by
  have rooted : Rooted earlyMachine.disk := by
    apply rooted_of_entries
    intro key member
    simp only [earlyMachine, List.map_cons, List.map_nil, List.mem_cons, List.not_mem_nil, or_false] at member
    rcases member with rfl | rfl | rfl | rfl <;> rfl
  have outside : Outside {} "p" := by
    have apart : ¬ placeOf (stagingDirectory {}) <+: placeOf (Settings.outputDirectory {} "p") := by
      decide +kernel
    rintro _ ⟨number, rfl⟩ below
    exact apart ((placeOf_below _ (RenderLayout.workspace_plain number)).trans below)
  have film : Proper "p" (earlyCall "film.mp4") := by
    refine ⟨rfl, ?_⟩
    intro instant name tried named
    have asked : requestedName (some "film.mp4") = some "film.mp4" := by decide +kernel
    have video : Dotted "mp4".toList "film.mp4" := ⟨"film".toList, by decide, by decide, by decide⟩
    exact dotted_apart video ((fileName_dotted instant).candidate suffix_log tried)
      (Option.some.inj (asked.symm.trans named))
  have proper : ∀ call ∈ [earlyCall "film.mp4", earlyCall "film.mp4"], Proper "p" call := by
    simp [film]
  have reported : ((earlyCall "film.mp4").run {} (runCalls {} [] earlyMachine)).1.report.logFile =
      some "data/p/rendered/render_log_19700101_000000_000.txt" := by
    decide +kernel
  exact ⟨rooted, outside, proper, logs_permanent {} "p" [earlyCall "film.mp4", earlyCall "film.mp4"] earlyMachine
    rooted outside proper [] (earlyCall "film.mp4") [earlyCall "film.mp4"] rfl _ reported⟩

/-- An output that is asked for under the name of a log takes its place: an earlier log is lost, and at the same
instant the log and the output are one file. -/
theorem log_overwritten :
    ((earlyCall "film.mp4").run {} earlyMachine).1.report.logFile =
        some "data/p/rendered/render_log_19700101_000000_000.txt" ∧
      ((runCalls {} [earlyCall "film.mp4", earlyCall "render_log_19700101_000000_000.txt"] earlyMachine).disk.read
        "data/p/rendered/render_log_19700101_000000_000.txt" matches .ok ⟨#[0]⟩) ∧
      ((earlyCall "render_log_19700101_000000_000.txt").run {} earlyMachine).1.report.logFile =
        some "data/p/rendered/render_log_19700101_000000_000.txt" ∧
      ((earlyCall "render_log_19700101_000000_000.txt").run {} earlyMachine).1.report.outputPath =
        some "data/p/rendered/render_log_19700101_000000_000.txt" := by
  decide +kernel

end Calls

end Montage.Proofs.RenderLogs
