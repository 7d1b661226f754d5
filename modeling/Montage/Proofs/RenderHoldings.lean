import Montage.Proofs.RenderLogs
import Montage.Proofs.ReservedNames

/-! Renders side by side. Those that pick the names of their outputs themselves hold outputs and logs of their own,
however their steps are interleaved: an output until its render removes it again, and a log for good. -/

namespace Montage.Proofs.RenderHoldings
open Montage.Render JobFrame DiskPlaces PathJoin RenderOutput RenderSteps RenderCourse RenderLeavings RenderNames
  RenderWorkspace JobPool PoolHoldings ReservedNames
open RenderLayout (IsWorkspace assemble_ok)
open RenderOutcome (plainInputs)
open RenderLogs (earlyMachine)

structure Order where
  settings : Settings
  inputs : Inputs

namespace Order

def directory (order : Order) : String :=
  order.settings.outputDirectory order.inputs.project

def job (order : Order) : Job Result :=
  render order.settings order.inputs

/-- No name was asked for, so that the render picks one. -/
structure Unnamed (order : Order) : Prop where
  unnamed : requestedName order.inputs.request.outputName = none
  whole : '/' ∉ order.inputs.project.toList

end Order

/-- A directory to stage in holds no directory that outputs are kept in. -/
def Private (orders : List Order) (workspace : String) : Prop :=
  ∀ order ∈ orders, ¬ placeOf workspace <+: placeOf order.directory

def IsGiven (orders : List Order) (place : List String) : Prop :=
  ∃ order ∈ orders, ∃ name, (Dotted "mp4".toList name ∨ Dotted "txt".toList name) ∧
    place = placeOf order.directory ++ [name]

def IsLogged (orders : List Order) (place : List String) : Prop :=
  ∃ order ∈ orders, ∃ log, IsLog order.directory log ∧ place = placeOf log

def terms (orders : List Order) : Terms where
  given := IsGiven orders
  kept := IsLogged orders
  rooms parent := ∃ order ∈ orders, parent = stagingDirectory order.settings
  granted
    | .makeWorkspace parent, .ok workspace => IsWorkspace parent workspace ∧ Private orders workspace
    | _, _ => True

/-- What is reported of a render is held by it. -/
structure Holds (order : Order) (result : Result) (held : List (List String)) : Prop where
  log : ∀ log, result.report.logFile = some log → IsLog order.directory log ∧ placeOf log ∈ held
  output : ∀ output, result.report.outputPath = some output →
    Chosen order.settings order.inputs output ∧ placeOf output ∈ held

/-- What holds if an attempt succeeds. -/
def Good (good : α → List (List String) → Prop) : Except ε α → List (List String) → Prop
  | .ok value, held => good value held
  | .error _, _ => True

section Rules
variable {terms : Terms} {held : List (List String)} {good : α → List (List String) → Prop}

theorem good_bind {attempt : Attempt α} {next : α → Attempt β} {better : β → List (List String) → Prop}
    (first : Tidy terms (Good good) held attempt.run)
    (later : ∀ value after, good value after → Tidy terms (Good better) after (next value).run) :
    Tidy terms (Good better) held (attempt >>= next).run :=
  first.attempt_bind later fun _ _ _ => trivial

theorem good_quiet {attempt : Attempt α} (confined : Confined (Neutral held) attempt.run) :
    Tidy terms (Good fun _ after => after = held) held attempt.run := by
  refine (Tidy.of_confined confined).weaken fun result after same => ?_
  cases result with
  | ok value => exact same
  | error fault => trivial

private theorem good_pure {value : α} (holds : good value held) :
    Tidy terms (Good good) held (Pure.pure value : Attempt α).run :=
  .done holds

private theorem good_except (describe : ε → Fault) (result : Except ε α) :
    Tidy terms (Good fun value after => result = .ok value ∧ after = held) held
      (Attempt.ofExcept describe result).run := by
  cases result with
  | ok value => exact .done ⟨rfl, rfl⟩
  | error fault => exact .done trivial

private theorem good_disk {job : Job (Except DiskFault α)} (tidy : Tidy terms (Good good) held job) :
    Tidy terms (Good good) held (Attempt.ofDisk job).run := by
  refine tidy.bind fun result after holds => ?_
  cases result with
  | ok value => exact .done holds
  | error fault => exact .done trivial

end Rules

section Places
variable {orders : List Order} {order : Order} (member : order ∈ orders)
include member

private theorem given_output (proper : order.Unnamed) (instant : Instant) :
    ∀ candidate ∈ Audit.candidates (defaultName order.inputs.project instant),
      IsGiven orders (placeOf (Path.join order.directory candidate)) := by
  intro candidate tried
  have video := (defaultName_dotted proper.whole instant).candidate suffix_output tried
  exact ⟨order, member, candidate, .inl video, placeOf_join _ (video.plain suffix_output)⟩

private theorem given_log (instant : Instant) : ∀ candidate ∈ Audit.candidates (Audit.fileName instant),
    IsGiven orders (placeOf (Path.join order.directory candidate)) := by
  intro candidate tried
  have text := (fileName_dotted instant).candidate suffix_log tried
  exact ⟨order, member, candidate, .inr text, placeOf_join _ (text.plain suffix_log)⟩

omit member

private theorem logged_last {place : List String} (logged : IsLogged orders place) :
    ∃ name, place.getLast? = some name ∧ Dotted "txt".toList name := by
  obtain ⟨order, -, log, known, rfl⟩ := logged
  obtain ⟨name, text, rfl⟩ := log_named known
  rw [placeOf_join _ (text.plain suffix_log)]
  exact ⟨name, List.getLast?_concat, text⟩

private theorem output_not_logged (proper : order.Unnamed) {output : String}
    (chosen : Chosen order.settings order.inputs output) : ¬ IsLogged orders (placeOf output) := by
  intro logged
  obtain ⟨name, last, text⟩ := logged_last logged
  obtain ⟨other, named, asked⟩ := chosen_last chosen
  rw [placeOf_last named] at last
  cases last
  rcases asked with requested | video
  · rw [proper.unnamed] at requested
    cases requested
  · exact dotted_apart video text rfl

private theorem workspace_apart {parent workspace : String} (named : IsWorkspace parent workspace)
    (apart : Private orders workspace) : ∀ place, IsGiven orders place → ¬ placeOf workspace <+: place := by
  rintro _ ⟨order, member, name, dotted, rfl⟩ below
  rcases List.prefix_concat_iff.mp below with same | inside
  · obtain ⟨number, rfl⟩ := named
    rw [placeOf_join _ (RenderLayout.workspace_plain number)] at same
    have dot : '.' ∈ name.toList := by
      rcases dotted with ⟨front, -, -, chars⟩ | ⟨front, -, -, chars⟩ <;> simp [chars]
    rw [← List.singleton_inj.mp (List.append_inj_right' same rfl)] at dot
    have digit : '.' ∈ Nat.toDigits 10 number := by simpa using dot
    exact absurd (Nat.isDigit_of_mem_toDigits (by decide) (by decide) digit) (by decide)
  · exact apart order member inside

end Places

section Work
variable {orders : List Order} {order : Order} {held : List (List String)}

private theorem outputPath_tidy (member : order ∈ orders) (proper : order.Unnamed) (instant : Instant) :
    Tidy (terms orders) (Good fun output after =>
        Chosen order.settings order.inputs output ∧ after = placeOf output :: held) held
      (outputPath order.directory order.inputs.project order.inputs.request.outputName instant).run := by
  unfold outputPath Chosen IsOutput
  rw [proper.unnamed]
  refine good_disk ((reserveFirst_tidy (given_output member proper instant)).weaken fun result after holds => ?_)
  cases result with
  | ok output =>
    obtain ⟨⟨candidate, tried, same⟩, added⟩ := holds
    exact ⟨⟨instant, candidate, tried, same⟩, added⟩
  | error fault => trivial

private theorem create_tidy (member : order ∈ orders) (project output commandLine : String) (instant : Instant) :
    Tidy (terms orders) (Good fun log after => IsLog order.directory log ∧ after = placeOf log :: held) held
      (Audit.create order.directory project output commandLine instant) := by
  refine (reserveFirst_tidy (given_log member instant)).bind fun result after holds => ?_
  cases result with
  | error fault => exact .done trivial
  | ok log =>
    obtain ⟨⟨candidate, tried, same⟩, added⟩ := holds
    refine .act trivial fun reply _ => ?_
    cases reply with
    | error fault => exact .done trivial
    | ok => exact .done ⟨⟨instant, candidate, tried, same⟩, added⟩

structure Ready (order : Order) (held : List (List String)) (prepared : Prepared) (after : List (List String)) :
    Prop where
  chosen : Chosen order.settings order.inputs prepared.command.output
  logged : IsLog order.directory prepared.log
  held : after = placeOf prepared.log :: placeOf prepared.command.output :: held

private theorem arrange_tidy (member : order ∈ orders) (proper : order.Unnamed) (workspace : String) :
    Tidy (terms orders) (Good fun arranged after => arranged.command.output = arranged.output ∧
        Chosen order.settings order.inputs arranged.output ∧ after = placeOf arranged.output :: held) held
      (arrange order.settings order.inputs workspace).run := by
  refine good_bind (good_quiet (stage_confined (fun _ _ _ => trivial) order.settings order.inputs)) ?_
  rintro staged _ rfl
  refine good_bind (good_quiet (.ofJob (probe_confined order.settings (fun _ => trivial) trivial fun _ => trivial))) ?_
  rintro info _ rfl
  refine good_bind (good_quiet compile_confined) ?_
  rintro compiled _ rfl
  refine good_bind (good_quiet (.ofJob (.ask trivial))) ?_
  rintro instant _ rfl
  refine good_bind (good_quiet (.ofDisk (.ask trivial))) ?_
  rintro _ _ rfl
  refine good_bind (outputPath_tidy member proper instant) ?_
  rintro output _ ⟨chosen, rfl⟩
  refine good_bind (good_except _ _) ?_
  rintro command _ ⟨assembled, rfl⟩
  obtain ⟨_, _, _, same, -⟩ := assemble_ok assembled
  exact good_pure ⟨same, chosen, rfl⟩

private theorem prepare_tidy (member : order ∈ orders) (proper : order.Unnamed) (workspace : String) :
    Tidy (terms orders) (Good (Ready order held)) held (prepare order.settings order.inputs workspace).run := by
  refine good_bind (arrange_tidy member proper workspace) ?_
  rintro arranged _ ⟨same, chosen, rfl⟩
  refine good_bind (good_disk (create_tidy member _ _ _ _)) ?_
  rintro log _ ⟨logged, rfl⟩
  exact good_pure ⟨same ▸ chosen, logged, by rw [same]⟩

private theorem invoke_tidy (settings : Settings) {command : Command} (log : String)
    (output : placeOf command.output ∈ held) :
    Tidy (terms orders) (fun _ after => after = held) held (invoke settings command log).run := by
  refine .of_confined (invoke_confined settings ?_ (fun _ => trivial) trivial)
  intro path last
  rwa [← last_argument last]

private theorem conclude_tidy (member : order ∈ orders) (proper : order.Unnamed) {prepared : Prepared}
    {after : List (List String)} (ready : Ready order held prepared after) (counts : Counts)
    (outcome : Except Fault Nat) :
    Tidy (terms orders) (Holds order) after (conclude order.settings counts prepared.command prepared.log outcome) := by
  have log : placeOf prepared.log ∈ after := by simp [ready.held]
  have output : placeOf prepared.command.output ∈ after := by simp [ready.held]
  cases outcome with
  | ok size =>
    have asked : Tidy (terms orders) (fun _ last => last = after) after (probe order.settings prepared.command.output) :=
      .of_confined (probe_confined order.settings (fun _ => trivial) trivial fun _ => trivial)
    refine asked.bind ?_
    rintro info _ rfl
    refine .done ⟨?_, ?_⟩
    · rintro _ ⟨rfl⟩
      exact ⟨ready.logged, log⟩
    · rintro _ ⟨rfl⟩
      exact ⟨ready.chosen, output⟩
  | error fault =>
    have unlogged := @output_not_logged orders order proper _ ready.chosen
    have apart : placeOf prepared.log ≠ placeOf prepared.command.output := by
      intro same
      exact unlogged ⟨order, member, prepared.log, ready.logged, same.symm⟩
    let remove : Action := .remove prepared.command.output
    have removed : Tidy (terms orders) (fun _ last => placeOf prepared.log ∈ last) after (Job.ask remove) := by
      refine .ask ⟨output, unlogged⟩ fun reply _ => mem_hold_of_mem log ?_ reply
      intro path same
      obtain rfl := Action.remove.inj same
      exact apart
    have sized : Tidy (terms orders) (fun _ last => last = after) after
        (Job.ask (.size prepared.command.output)) := .of_confined (.ask trivial)
    have cleared : Tidy (terms orders) (fun _ last => placeOf prepared.log ∈ last) after
        (removeIfEmpty prepared.command.output) := by
      refine sized.bind ?_
      rintro size _ rfl
      split
      · exact removed.bind fun _ _ kept => .done kept
      · exact .done log
    refine cleared.bind fun _ last kept => .done ⟨?_, nofun⟩
    rintro _ ⟨rfl⟩
    exact ⟨ready.logged, kept⟩

private theorem work_tidy (member : order ∈ orders) (proper : order.Unnamed) (workspace : String) :
    Tidy (terms orders) (Good (Holds order)) held (work order.settings order.inputs workspace).run := by
  rw [work_prepared]
  refine good_bind (prepare_tidy member proper workspace) ?_
  intro prepared after ready
  have output : placeOf prepared.command.output ∈ after := by simp [ready.held]
  have launched : Tidy (terms orders) (Holds order) after (launch order.settings order.inputs prepared) := by
    refine (invoke_tidy order.settings prepared.log output).bind ?_
    rintro outcome _ rfl
    exact conclude_tidy member proper ready _ outcome
  exact launched.bind fun _ _ holds => .done holds

private theorem makeWorkspace_tidy (member : order ∈ orders) : Tidy (terms orders) (fun result after => after = held ∧
    ∀ workspace, result = .ok workspace → ∃ parent, IsWorkspace parent workspace ∧ Private orders workspace) held
      (makeWorkspace order.settings) := by
  have opened (parent : String) (room : parent = stagingDirectory order.settings) :
      Tidy (terms orders) (fun result after => after = held ∧
        ∀ workspace, result = .ok workspace → ∃ parent, IsWorkspace parent workspace ∧ Private orders workspace) held
          (Job.ask (.makeWorkspace parent)) := by
    refine .ask ⟨order, member, room⟩ fun reply granted => ⟨rfl, ?_⟩
    rintro workspace rfl
    exact ⟨parent, granted⟩
  unfold makeWorkspace
  split
  next unset => exact opened _ (by rw [stagingDirectory, unset]; rfl)
  next root set =>
    have rooted : Tidy (terms orders) (fun _ after => after = held) held (Job.ask (.makeDirectories root)) :=
      .of_confined (.ask trivial)
    refine rooted.bind ?_
    rintro result _ rfl
    cases result with
    | error fault => exact .done ⟨rfl, nofun⟩
    | ok => exact opened root (by rw [stagingDirectory, set]; rfl)

private theorem execute_tidy (member : order ∈ orders) (proper : order.Unnamed) :
    Tidy (terms orders) (Good (Holds order)) held (execute order.settings order.inputs).run := by
  unfold execute
  change Tidy _ _ _ (if _ then _ else _)
  split
  · exact .done trivial
  · refine (makeWorkspace_tidy member).bind ?_
    rintro result _ ⟨rfl, granted⟩
    cases result with
    | error fault => exact .done trivial
    | ok workspace =>
      obtain ⟨parent, named, apart⟩ := granted workspace rfl
      refine (work_tidy member proper workspace).bind fun result after holds => ?_
      by_cases endless : result = .error .endless
      · subst endless
        exact .done trivial
      · rw [leave_ended endless]
        exact .act (workspace_apart named apart) fun _ _ => .done holds

/-- A render that picks its names keeps to the terms, and holds in the end what it reports. -/
private theorem render_tidy (member : order ∈ orders) (proper : order.Unnamed) :
    Tidy (terms orders) (Holds order) held order.job := by
  have unreported (state : State) (fault : Fault) (after : List (List String)) :
      Holds order (unfinished state order.inputs.request fault) after := ⟨nofun, nofun⟩
  have found : Tidy (terms orders) (fun _ after => after = held) held (findEngine order.settings.engine).run := by
    refine .of_confined (.attempt_bind (.ofJob (.ask trivial)) fun there => ?_)
    cases there with
    | false => exact .fail _
    | true => exact .attempt_pure _
  refine found.bind ?_
  rintro engine _ rfl
  cases engine with
  | error fault => exact .done (unreported _ fault _)
  | ok engine =>
    refine (execute_tidy member proper).bind fun result after holds => ?_
    cases result with
    | error fault => cases fault <;> exact .done (unreported _ _ _)
    | ok result => exact .done holds

end Work

def opened (event : Event) : Option String :=
  match event.action with
  | .makeWorkspace parent => (event.found.makeWorkspace parent).1.toOption
  | _ => none

/-- A worker came to a result, and holds what that reports. -/
def Reports (orders : List Order) (worker : Nat) (result : Result) (held : List (List String)) : Prop :=
  ∃ order, orders[worker]? = some order ∧ Holds order result held

/-- What renders have done side by side, and what those that are done report, at any time. -/
structure Unshared (orders : List Order) (pool : Pool Result) : Prop where
  /-- Two renders that are done report different logs. -/
  logs : ∀ first second one two log other, pool.result first = some one → pool.result second = some two →
    one.report.logFile = some log → two.report.logFile = some other → placeOf log = placeOf other → first = second
  /-- What a render that is done reports, it holds. -/
  reported : ∀ worker result, pool.result worker = some result →
    Reports orders worker result (heldBy pool.events worker)
  /-- What a render holds is there, and no other render holds it. -/
  held : ∀ worker, ∀ place ∈ heldBy pool.events worker, pool.machine.disk.at? place ≠ none ∧
    ∀ other, place ∈ heldBy pool.events other → worker = other
  /-- A log is held by the render that created it from then on. -/
  kept : ∀ event ∈ pool.events, ∀ log, event.created = some log → IsLogged orders (placeOf log) →
    placeOf log ∈ heldBy pool.events event.worker
  /-- No render is given a path that any of them holds at that time. -/
  given : ∀ front event rest path, pool.events = front ++ event :: rest → event.created = some path →
    ∀ worker, placeOf path ∉ heldBy front worker
  /-- The engine is started on an output that its render holds. -/
  engines : ∀ front event rest program arguments limit, pool.events = front ++ event :: rest →
    event.action = .runProgram program arguments (some limit) → ∀ output, arguments.getLast? = some output →
      placeOf output ∈ heldBy front event.worker

section Pools
variable {orders : List Order} {machine : Machine} {schedule : List Turn}

private theorem orders_tidy (proper : ∀ order ∈ orders, order.Unnamed) : ∀ worker job,
    (orders.map Order.job)[worker]? = some job → Tidy (terms orders) (Reports orders worker) [] job := by
  intro worker job there
  rw [List.getElem?_map, Option.map_eq_some_iff] at there
  obtain ⟨order, known, rfl⟩ := there
  have member := List.mem_of_getElem? known
  exact (render_tidy member (proper order member)).weaken fun result held holds => ⟨order, known, holds⟩

private theorem opened_named {event : Event} {workspace : String} (made : workspace ∈ opened event) :
    ∃ parent, event.action = .makeWorkspace parent ∧ IsWorkspace parent workspace := by
  obtain ⟨worker, action, found⟩ := event
  cases action with
  | makeWorkspace parent =>
    refine ⟨parent, rfl, ?_⟩
    simp only [opened, Machine.makeWorkspace] at made
    split at made <;> cases made
    exact RenderLayout.freeWorkspace_named found.disk parent _ 0
  | _ => cases made

theorem granted_iff (event : Event) : (terms orders).granted event.action event.reply ↔
    ∀ workspace ∈ opened event, Private orders workspace := by
  obtain ⟨worker, action, found⟩ := event
  cases action with
  | makeWorkspace parent =>
    have named := @opened_named ⟨worker, .makeWorkspace parent, found⟩
    simp only [opened, Event.reply, Machine.perform] at named ⊢
    cases made : (found.makeWorkspace parent).1 with
    | error fault =>
      refine iff_of_true trivial fun workspace member => ?_
      cases member
    | ok workspace =>
      rw [made] at named
      obtain ⟨other, same, named⟩ := named rfl
      obtain rfl := Action.makeWorkspace.inj same
      constructor
      · intro granted other member
        cases member
        exact granted.2
      · exact fun apart => ⟨named, apart workspace rfl⟩
  | _ =>
    refine iff_of_true trivial fun workspace made => ?_
    cases made

/-- With no directory of outputs below one to stage in, none of those that are made to stage in holds any. -/
private theorem private_of_settings (proper : ∀ order ∈ orders, order.Unnamed)
    (outside : ∀ one ∈ orders, ∀ two ∈ orders,
    ¬ placeOf (stagingDirectory one.settings) <+: placeOf two.directory) :
    ∀ event ∈ (Pool.run ⟨orders.map Order.job, machine, []⟩ schedule).events, ∀ workspace ∈ opened event,
      Private orders workspace := by
  have answered : ∀ event, Answered (terms orders) event := by
    intro event held allowed
    refine (granted_iff event).mpr fun workspace made two member below => ?_
    obtain ⟨parent, action, number, rfl⟩ := opened_named made
    rw [action] at allowed
    obtain ⟨one, other, rfl⟩ := allowed
    exact outside one other two member ((placeOf_below _ (RenderLayout.workspace_plain number)).trans below)
  intro event member
  obtain ⟨front, rest, same⟩ := List.append_of_mem member
  have allowed := allowed_before (orders_tidy proper) (fun event _ => answered event) same
  exact (granted_iff event).mp (answered event _ allowed)

/-- Renders that pick their names themselves share neither logs nor outputs, whatever is on the disk, whoever takes the
next step, whatever time it is then, and whatever the engine does. -/
private theorem renders_unshared (proper : ∀ order ∈ orders, order.Unnamed)
    (apart : ∀ event ∈ (Pool.run ⟨orders.map Order.job, machine, []⟩ schedule).events, ∀ workspace ∈ opened event,
      Private orders workspace) : Unshared orders (Pool.run ⟨orders.map Order.job, machine, []⟩ schedule) := by
  have start := orders_tidy proper
  have answered : ∀ event ∈ (Pool.run ⟨orders.map Order.job, machine, []⟩ schedule).events,
      Answered (terms orders) event := fun event member _ _ => (granted_iff event).mpr (apart event member)
  have orderly := orderly_run start schedule answered
  have reported : ∀ worker result, (Pool.run ⟨orders.map Order.job, machine, []⟩ schedule).result worker = some result →
      Reports orders worker result (heldBy (Pool.run ⟨orders.map Order.job, machine, []⟩ schedule).events worker) := by
    intro worker result finished
    cases orderly.tidy worker _ (result_iff.mp finished) with
    | done holds => exact holds
  constructor
  case logs =>
    intro first second one two log other ended finished log_of other_of same
    obtain ⟨_, -, holds⟩ := reported first one ended
    obtain ⟨_, -, also⟩ := reported second two finished
    exact orderly.apart first second _ (holds.log log log_of).2 (same ▸ (also.log other other_of).2)
  case reported => exact reported
  case held =>
    intro worker place member
    exact ⟨(orderly.there worker place member).2, fun other => orderly.apart worker other place member⟩
  case kept => exact orderly.kept
  case given =>
    intro front event rest path same created
    exact created_unheld start answered same created
  case engines =>
    intro front event rest program arguments limit same action
    have allowed := allowed_before start answered same
    rw [action] at allowed
    exact allowed

/-- Names are not shared under any interleaving: not those of files that calls reserve, whatever names they ask for, and
so neither the logs nor the outputs of renders that pick their names themselves. -/
theorem names_unshared {calls : List Call} (whole : ∀ call ∈ calls, '/' ∉ call.name.toList)
    (proper : ∀ order ∈ orders, order.Unnamed) (machine : Machine) (schedule : List Turn)
    (apart : ∀ event ∈ (Pool.run ⟨orders.map Order.job, machine, []⟩ schedule).events, ∀ workspace ∈ opened event,
      Private orders workspace) :
    Reserved calls machine (Pool.run ⟨calls.map Call.job, machine, []⟩ schedule) ∧
      Unshared orders (Pool.run ⟨orders.map Order.job, machine, []⟩ schedule) :=
  ⟨calls_reserved whole machine schedule, renders_unshared proper apart⟩

/-- The second of these calls finds its name taken by the first and the next one by the third. -/
def rivals : List Call :=
  [⟨"data/p", "film.mp4"⟩, ⟨"data/p", "film.mp4"⟩, ⟨"data/p", "film_1.mp4"⟩]

def twins : List Order :=
  [⟨{}, plainInputs none⟩, ⟨{}, plainInputs none⟩]

def inTurn (workers steps : Nat) : List Turn :=
  (List.range steps).map fun step =>
    ⟨step % workers, ⟨0, 0⟩, [("ffmpeg", { behave := fun _ _ => { writes := some ⟨#[0]⟩ } })]⟩

/-- The second call goes on to a name that is free, and the second render to other names than the first. -/
theorem rivals_unshared : (∀ call ∈ rivals, '/' ∉ call.name.toList) ∧ (∀ order ∈ twins, order.Unnamed) ∧
    (∀ event ∈ (Pool.run ⟨twins.map Order.job, earlyMachine, []⟩ (inTurn 3 60)).events, ∀ workspace ∈ opened event,
      Private twins workspace) ∧
    Reserved rivals earlyMachine (Pool.run ⟨rivals.map Call.job, earlyMachine, []⟩ (inTurn 3 60)) ∧
    Unshared twins (Pool.run ⟨twins.map Order.job, earlyMachine, []⟩ (inTurn 3 60)) ∧
    ((Pool.run ⟨rivals.map Call.job, earlyMachine, []⟩ (inTurn 3 60)).result 1 matches
      some (.ok "data/p/film_2.mp4")) ∧
    ((Pool.run ⟨twins.map Order.job, earlyMachine, []⟩ (inTurn 3 60)).result 1).map (·.report.logFile) =
      some (some "data/p/rendered/render_log_19700101_000000_000_1.txt") := by
  have whole : ∀ call ∈ rivals, '/' ∉ call.name.toList := by decide
  have proper : ∀ order ∈ twins, order.Unnamed := by
    have plain : (⟨{}, plainInputs none⟩ : Order).Unnamed := ⟨rfl, by decide⟩
    simp [twins, plain]
  have apart : ∀ one ∈ twins, ∀ two ∈ twins, ¬ placeOf (stagingDirectory one.settings) <+: placeOf two.directory := by
    decide +kernel
  have opens := @private_of_settings _ earlyMachine (inTurn 3 60) proper apart
  have unshared := names_unshared whole proper earlyMachine (inTurn 3 60) opens
  exact ⟨whole, proper, opens, unshared.1, unshared.2, by decide +kernel, by decide +kernel⟩

end Pools

end Montage.Proofs.RenderHoldings
