import Montage.Proofs.JobPool

/-! What jobs side by side write. As long as files are only written as a whole, a file holds what was written to it last,
and whoever reads it gets that. A job goes where its answers lead it, so that it tells the steps that a worker took. -/

namespace Montage.Proofs.PoolWrites
open JobFrame DiskFrame DiskPlaces DiskTree JobPool

/-- A step that changes no file, or writes it as a whole. -/
def Whole : Action → Prop
  | .makeWorkspace _ | .createNew _ | .append _ _ | .remove _ | .removeTree _ | .runProgram _ _ _ => False
  | _ => True

/-- What a step wrote to a place. -/
def written (place : List String) : (action : Action) → action.Reply → Option ByteArray
  | .write path content, .ok () => if placeOf path = place then some content else none
  | _, _ => none

/-- What was written to a place, in order, and by whom. -/
def writesTo (place : List String) (events : List Event) : List (Nat × ByteArray) :=
  events.filterMap fun event => (written place event.action event.reply).map (event.worker, ·)

def writers (place : List String) (events : List Event) : List Nat :=
  (writesTo place events).map Prod.fst

/-- The steps by which a job came to what is left of it. -/
inductive Ran : Job α → List Event → Job α → Prop
  | here (job : Job α) : Ran job [] job
  | step {worker : Nat} {action : Action} {found : Machine} {next : action.Reply → Job α} {events : List Event}
      {last : Job α} (later : Ran (next (found.perform action).1) events last) :
      Ran (.act action next) (⟨worker, action, found⟩ :: events) last

section Writes
variable {place : List String}

theorem mem_writesTo {events : List Event} {worker : Nat} {content : ByteArray} :
    (worker, content) ∈ writesTo place events ↔
      ∃ event ∈ stepsOf events worker, written place event.action event.reply = some content := by
  simp only [writesTo, List.mem_filterMap, Option.map_eq_some_iff, Prod.mk.injEq, mem_stepsOf]
  constructor
  · rintro ⟨event, member, _, wrote, own, rfl⟩
    exact ⟨event, ⟨member, own⟩, wrote⟩
  · rintro ⟨event, ⟨member, own⟩, wrote⟩
    exact ⟨event, member, content, wrote, own, rfl⟩

theorem writesTo_append (front rest : List Event) :
    writesTo place (front ++ rest) = writesTo place front ++ writesTo place rest :=
  List.filterMap_append

theorem writers_read (front rest : List Event) (worker : Nat) (path : String) (found : Machine) :
    writers place (front ++ ⟨worker, .read path, found⟩ :: rest) = writers place (front ++ rest) := by
  simp only [writers, writesTo_append]
  rfl

theorem writers_last {events : List Event} {worker : Nat} {content : ByteArray}
    (wrote : (writesTo place events).getLast? = some (worker, content)) :
    (writers place events).getLast? = some worker := by
  rw [writers, List.getLast?_map, wrote]
  rfl

theorem written_some {action : Action} {reply : action.Reply} {content : ByteArray}
    (wrote : written place action reply = some content) : ∃ path, action = .write path content ∧ placeOf path = place := by
  unfold written at wrote
  split at wrote
  next path other =>
    split at wrote
    next same => exact ⟨path, by rw [Option.some.inj wrote], same⟩
    next => cases wrote
  next => cases wrote

variable {machine : Machine} {action : Action} (whole : Whole action)
include whole

private theorem perform_file {content : ByteArray}
    (there : (machine.perform action).2.disk.at? place = some (.file content)) :
    written place action (machine.perform action).1 = some content ∨
      written place action (machine.perform action).1 = none ∧ machine.disk.at? place = some (.file content) := by
  cases action with
  | findProgram | read | isThere | size | now | freshId => exact .inr ⟨rfl, there⟩
  | makeWorkspace | createNew | append | remove | removeTree | runProgram => exact whole.elim
  | makeDirectories path =>
    refine .inr ⟨rfl, ?_⟩
    have same : (machine.perform (.makeDirectories path)).2.disk = (machine.disk.makeDirectories path).1 := by
      simp only [Machine.perform]
      split
      next made => rw [made]
      next made => rw [made]
    rw [same] at there
    rcases makeDirectories_at? machine.disk path place with kept | ⟨-, -, made⟩
    · rwa [kept] at there
    · cases made.symm.trans there
  | write path other =>
    simp only [Machine.perform] at there ⊢
    cases tried : machine.disk.write path other with
    | error fault =>
      rw [tried] at there
      exact .inr ⟨rfl, there⟩
    | ok disk =>
      rw [tried] at there
      obtain ⟨_, found, file, rfl⟩ := write_ok tried
      obtain rfl := locate_placeOf found
      change (machine.disk.put (placeOf path) (.file other)).at? place = _ at there
      by_cases same : placeOf path = place
      · subst same
        rw [at?_put_same _ _ (inside_of_not_directory file)] at there
        cases there
        exact .inl (if_pos rfl)
      · rw [at?_put_other _ _ (Ne.symm same)] at there
        exact .inr ⟨if_neg same, there⟩

end Writes

/-- Every file holds what was written to it last, or what it held at first. -/
structure Lasting (start : Disk) (pool : Pool α) : Prop where
  whole : ∀ (worker : Nat) job, pool.jobs[worker]? = some job → Confined Whole job
  held : ∀ place content, pool.machine.disk.at? place = some (.file content) →
    (∃ worker, (writesTo place pool.events).getLast? = some (worker, content)) ∨
      writesTo place pool.events = [] ∧ start.at? place = some (.file content)

section Pools
variable {jobs : List (Job α)} {machine : Machine}

private theorem lasting_turn {start : Disk} {pool : Pool α} {turn : Turn} {action : Action}
    {next : action.Reply → Job α}
    (lasting : Lasting start pool) (due : pool.jobs[turn.worker]? = some (.act action next)) :
    Lasting start (pool.turn turn) := by
  cases lasting.whole turn.worker _ due with
  | act asked later =>
    constructor
    case whole =>
      intro worker job there
      by_cases same : worker = turn.worker
      · subst same
        rw [jobs_own due, Option.some.injEq] at there
        exact there ▸ later _
      · rw [jobs_other due same] at there
        exact lasting.whole worker job there
    case held =>
      intro place content there
      rw [turn_act due] at there ⊢
      rw [writesTo_append]
      rcases perform_file asked there with wrote | ⟨other, before⟩
      · refine .inl ⟨turn.worker, ?_⟩
        simp [writesTo, Event.reply, wrote]
      · have nothing : writesTo place [⟨turn.worker, action, turn.found pool.machine⟩] = [] := by
          simp [writesTo, Event.reply, other]
        rw [nothing, List.append_nil]
        exact lasting.held place content before

private theorem lasting_run (whole : ∀ job ∈ jobs, Confined Whole job) (schedule : List Turn) :
    Lasting machine.disk (Pool.run ⟨jobs, machine, []⟩ schedule) := by
  have start : Lasting machine.disk (⟨jobs, machine, []⟩ : Pool α) :=
    ⟨fun _ job there => whole job (List.mem_of_getElem? there), fun _ _ there => .inr ⟨rfl, there⟩⟩
  exact run_keeps start (fun _ _ _ _ lasting due => lasting_turn lasting due) schedule

/-- What is read is what was written last before, or what was there at first. -/
theorem read_last (whole : ∀ job ∈ jobs, Confined Whole job) {schedule : List Turn} {front rest : List Event}
    {worker : Nat} {path : String} {found : Machine} {content : ByteArray}
    (same : (Pool.run ⟨jobs, machine, []⟩ schedule).events = front ++ ⟨worker, .read path, found⟩ :: rest)
    (read : found.disk.read path = .ok content) :
    (∃ writer, (writesTo (placeOf path) front).getLast? = some (writer, content)) ∨
      writesTo (placeOf path) front = [] ∧ machine.disk.at? (placeOf path) = some (.file content) := by
  obtain ⟨shorter, -, events, disk, -⟩ := run_before same
  obtain ⟨place, located, there⟩ := read_ok read
  obtain rfl := locate_placeOf located
  have lasting : Lasting machine.disk (Pool.run ⟨jobs, machine, []⟩ shorter) := lasting_run whole shorter
  change (Pool.run ⟨jobs, machine, []⟩ shorter).machine.disk = found.disk at disk
  rw [← disk] at there
  rw [← events]
  exact lasting.held _ _ there

end Pools

namespace Ran
variable {job last : Job α} {events : List Event}

theorem concat {action : Action} {next : action.Reply → Job α} (ran : Ran job events (.act action next)) (worker : Nat)
    (found : Machine) : Ran job (events ++ [⟨worker, action, found⟩]) (next (found.perform action).1) := by
  generalize ended : Job.act action next = middle at ran
  induction ran with
  | here =>
    subst ended
    exact .step (.here _)
  | step _ ih => exact .step (ih ended)

theorem of_run {jobs : List (Job α)} {machine : Machine} (schedule : List Turn) : ∀ worker job,
    (Pool.run ⟨jobs, machine, []⟩ schedule).jobs[worker]? = some job → ∃ first, jobs[worker]? = some first ∧
      Ran first (stepsOf (Pool.run ⟨jobs, machine, []⟩ schedule).events worker) job := by
  let came (worker : Nat) (events : List Event) (job : Job α) : Prop :=
    ∃ first, jobs[worker]? = some first ∧ Ran first events job
  refine @run_own α jobs machine came (fun _ job there => ⟨job, there, .here job⟩) ?_ schedule
  rintro worker events action next found ⟨first, there, ran⟩
  exact ⟨first, there, ran.concat worker found⟩

theorem of_event {jobs : List (Job α)} {machine : Machine} {schedule : List Turn} {event : Event}
    (member : event ∈ (Pool.run ⟨jobs, machine, []⟩ schedule).events) : ∃ first last,
      jobs[event.worker]? = some first ∧
      Ran first (stepsOf (Pool.run ⟨jobs, machine, []⟩ schedule).events event.worker) last := by
  obtain ⟨front, rest, same⟩ := List.append_of_mem member
  obtain ⟨shorter, -, -, -, next, due⟩ := run_before same
  have within : event.worker < (Pool.run ⟨jobs, machine, []⟩ schedule).jobs.length := by
    rw [run_length, ← run_length _ shorter]
    exact (List.getElem?_eq_some_iff.mp due).1
  obtain ⟨first, there, ran⟩ := of_run schedule event.worker _ (List.getElem?_eq_getElem within)
  exact ⟨first, _, there, ran⟩

theorem confined {allowed : Action → Prop} (ran : Ran job events last) (within : Confined allowed job) :
    ∀ event ∈ events, allowed event.action := by
  induction ran with
  | here => exact nofun
  | step _ ih =>
    cases within with
    | act asked later =>
      intro event member
      rcases List.mem_cons.mp member with rfl | member
      · exact asked
      · exact ih (later _) event member

/-- Work in two parts is in the first of them, or past it. -/
theorem bind_cases {next : α → Job β} {last : Job β} (ran : Ran (job >>= next) events last) :
    (∃ middle, Ran job events middle ∧ last = middle >>= next) ∨
      ∃ value front rest, events = front ++ rest ∧ Ran job front (.done value) ∧ Ran (next value) rest last := by
  induction job generalizing events with
  | done value => exact .inr ⟨value, [], events, rfl, .here _, ran⟩
  | act action after ih =>
    cases ran with
    | here => exact .inl ⟨.act action after, .here _, rfl⟩
    | step later =>
      rcases ih _ later with ⟨middle, first, rfl⟩ | ⟨value, front, rest, rfl, first, second⟩
      · exact .inl ⟨middle, .step first, rfl⟩
      · exact .inr ⟨value, _ :: front, rest, rfl, .step first, second⟩

theorem bind_done {next : α → Job β} {result : β} (ran : Ran (job >>= next) events (.done result)) :
    ∃ value front rest, events = front ++ rest ∧ Ran job front (.done value) ∧ Ran (next value) rest (.done result) := by
  rcases ran.bind_cases with ⟨middle, first, ended⟩ | past
  · cases middle with
    | done value => exact ⟨value, events, [], (List.append_nil _).symm, first, ended ▸ .here _⟩
    | act action after => cases ended
  · exact past

theorem done {value : α} (ran : Ran (.done value) events last) : events = [] ∧ last = .done value := by
  cases ran
  exact ⟨rfl, rfl⟩

theorem ask_done {action : Action} {reply : action.Reply} (ran : Ran (Job.ask action) events (.done reply)) :
    ∃ worker found, events = [⟨worker, action, found⟩] ∧ reply = (found.perform action).1 := by
  cases ran with
  | @step worker _ found _ _ _ later =>
    obtain ⟨rfl, same⟩ := later.done
    exact ⟨worker, found, rfl, Job.done.inj same⟩

theorem read_done {path : String} {next : Except DiskFault ByteArray → Job α} {result : α}
    (ran : Ran (Job.ask (.read path) >>= next) events (.done result)) : ∃ worker found rest,
      events = ⟨worker, .read path, found⟩ :: rest ∧ Ran (next (found.disk.read path)) rest (.done result) := by
  obtain ⟨reply, front, rest, rfl, asked, ended⟩ := ran.bind_done
  obtain ⟨worker, found, rfl, rfl⟩ := asked.ask_done
  exact ⟨worker, found, rest, rfl, ended⟩

theorem map_front {change : α → β} {last : Job β} (ran : Ran (change <$> job) events last) :
    ∃ middle, Ran job events middle := by
  have ran : Ran (job >>= fun value => pure (change value)) events last := ran
  rcases ran.bind_cases with ⟨middle, first, -⟩ | ⟨value, front, rest, rfl, first, second⟩
  · exact ⟨middle, first⟩
  · obtain ⟨rfl, -⟩ := second.done
    exact ⟨_, (List.append_nil front).symm ▸ first⟩

theorem map_done {change : α → β} {result : β} (ran : Ran (change <$> job) events (.done result)) :
    ∃ value, Ran job events (.done value) ∧ result = change value := by
  have ran : Ran (job >>= fun value => pure (change value)) events (.done result) := ran
  obtain ⟨value, front, rest, rfl, first, second⟩ := ran.bind_done
  obtain ⟨rfl, same⟩ := second.done
  exact ⟨value, (List.append_nil front).symm ▸ first, Job.done.inj same⟩

section Attempts
variable {attempt : ExceptT ε Job α} {next : α → ExceptT ε Job β}

theorem attempt_cases {last : Job (Except ε β)} (ran : Ran (attempt >>= next).run events last) :
    (∃ middle, Ran attempt.run events middle) ∨ ∃ value front rest, events = front ++ rest ∧
      Ran attempt.run front (.done (.ok value)) ∧ Ran (next value).run rest last := by
  rw [ExceptT.run_bind] at ran
  rcases ran.bind_cases with ⟨middle, first, -⟩ | ⟨result, front, rest, rfl, first, second⟩
  · exact .inl ⟨middle, first⟩
  · cases result with
    | ok value => exact .inr ⟨value, front, rest, rfl, first, second⟩
    | error fault =>
      obtain ⟨rfl, -⟩ := second.done
      rw [List.append_nil]
      exact .inl ⟨_, first⟩

theorem attempt_ok {result : β} (ran : Ran (attempt >>= next).run events (.done (.ok result))) :
    ∃ value front rest, events = front ++ rest ∧ Ran attempt.run front (.done (.ok value)) ∧
      Ran (next value).run rest (.done (.ok result)) := by
  rw [ExceptT.run_bind] at ran
  obtain ⟨first_result, front, rest, rfl, first, second⟩ := ran.bind_done
  cases first_result with
  | ok value => exact ⟨value, front, rest, rfl, first, second⟩
  | error fault => cases second.done.2

end Attempts

end Ran

end Montage.Proofs.PoolWrites
