import Mathlib.Data.List.Induction
import Montage.Proofs.JobFrame

/-! Jobs side by side on one machine. A schedule says who takes the next step, what time it is then, and how programs
behave; the step is taken on the disk as the others have left it. What holds under every schedule holds of every
interleaving. -/

namespace Montage.Proofs.JobPool
open JobFrame DiskFrame DiskPlaces

/-- A step that one of the jobs took, and the machine that it found. -/
structure Event where
  worker : Nat
  action : Action
  found : Machine

def Event.reply (event : Event) : event.action.Reply :=
  (event.found.perform event.action).1

/-- The path at which a step created a file. -/
def Event.created (event : Event) : Option String :=
  match event.action with
  | .createNew path =>
    match event.found.disk.createNew path with
    | .ok _ => some path
    | .error _ => none
  | _ => none

structure Pool (α : Type) where
  jobs : List (Job α)
  machine : Machine
  events : List Event := []

/-- Who takes the next step, and what it finds besides the disk. -/
structure Turn where
  worker : Nat
  clock : Instant
  programs : List (String × Program)

def Turn.found (turn : Turn) (machine : Machine) : Machine :=
  { machine with clock := turn.clock, programs := turn.programs }

namespace Pool

def turn (pool : Pool α) (turn : Turn) : Pool α :=
  match pool.jobs[turn.worker]? with
  | some (.act action next) =>
    let found := turn.found pool.machine
    { jobs := pool.jobs.set turn.worker (next (found.perform action).1)
      machine := (found.perform action).2
      events := pool.events ++ [⟨turn.worker, action, found⟩] }
  | _ => pool

def run (pool : Pool α) (schedule : List Turn) : Pool α :=
  schedule.foldl turn pool

def result (pool : Pool α) (worker : Nat) : Option α :=
  match pool.jobs[worker]? with
  | some (.done value) => some value
  | _ => none

end Pool

def stepsOf (events : List Event) (worker : Nat) : List Event :=
  events.filter (·.worker = worker)

def createdBy (events : List Event) (worker : Nat) : List String :=
  (stepsOf events worker).filterMap Event.created

/-- The places that a worker holds after a step: one more if it created a file, one less if it removed its own. -/
def hold (held : List (List String)) : (action : Action) → action.Reply → List (List String)
  | .createNew path, .ok () => placeOf path :: held
  | .remove path, .ok () => held.filter (· ≠ placeOf path)
  | _, _ => held

/-- The places of the files that a worker created and has not removed since. -/
def heldBy (events : List Event) (worker : Nat) : List (List String) :=
  (stepsOf events worker).foldl (fun held event => hold held event.action event.reply) []

section Turns
variable {pool : Pool α} {turn : Turn} {action : Action} {next : action.Reply → Job α}

theorem turn_act (due : pool.jobs[turn.worker]? = some (.act action next)) : pool.turn turn =
    { jobs := pool.jobs.set turn.worker (next ((turn.found pool.machine).perform action).1)
      machine := ((turn.found pool.machine).perform action).2
      events := pool.events ++ [⟨turn.worker, action, turn.found pool.machine⟩] } := by
  simp only [Pool.turn, due]

/-- A turn changes nothing, or it is a step of a job that is not done. -/
theorem turn_cases (pool : Pool α) (turn : Turn) : pool.turn turn = pool ∨
    ∃ action next, pool.jobs[turn.worker]? = some (.act action next) := by
  unfold Pool.turn
  split
  next action next due => exact .inr ⟨action, next, due⟩
  next => exact .inl rfl

theorem jobs_own (due : pool.jobs[turn.worker]? = some (.act action next)) :
    (pool.turn turn).jobs[turn.worker]? = some (next ((turn.found pool.machine).perform action).1) := by
  rw [turn_act due]
  exact List.getElem?_set_self (List.getElem?_eq_some_iff.mp due).1

theorem jobs_other (due : pool.jobs[turn.worker]? = some (.act action next)) {other : Nat}
    (differs : other ≠ turn.worker) : (pool.turn turn).jobs[other]? = pool.jobs[other]? := by
  rw [turn_act due]
  exact List.getElem?_set_ne differs.symm

theorem run_concat (pool : Pool α) (schedule : List Turn) (turn : Turn) :
    pool.run (schedule ++ [turn]) = (pool.run schedule).turn turn := by
  simp [Pool.run]

theorem mem_stepsOf {events : List Event} {event : Event} {worker : Nat} :
    event ∈ stepsOf events worker ↔ event ∈ events ∧ event.worker = worker := by
  simp [stepsOf]

theorem stepsOf_concat (events : List Event) (event : Event) (worker : Nat) :
    stepsOf (events ++ [event]) worker =
      if event.worker = worker then stepsOf events worker ++ [event] else stepsOf events worker := by
  by_cases own : event.worker = worker <;> simp [stepsOf, own]

private theorem heldBy_concat (events : List Event) (event : Event) (worker : Nat) : heldBy (events ++ [event]) worker =
    if event.worker = worker then hold (heldBy events worker) event.action event.reply else heldBy events worker := by
  unfold heldBy
  rw [stepsOf_concat]
  split
  · rw [List.foldl_append]
    rfl
  · rfl

theorem held_own (due : pool.jobs[turn.worker]? = some (.act action next)) :
    heldBy (pool.turn turn).events turn.worker =
      hold (heldBy pool.events turn.worker) action ((turn.found pool.machine).perform action).1 := by
  rw [turn_act due]
  exact (heldBy_concat _ _ _).trans (if_pos rfl)

theorem held_other (due : pool.jobs[turn.worker]? = some (.act action next)) {other : Nat}
    (differs : other ≠ turn.worker) : heldBy (pool.turn turn).events other = heldBy pool.events other := by
  rw [turn_act due]
  exact (heldBy_concat _ _ _).trans (if_neg differs.symm)

/-- What a turn keeps, every schedule keeps. -/
theorem run_keeps {invariant : Pool α → Prop} (start : invariant pool)
    (step : ∀ (pool : Pool α) (turn : Turn) action next, invariant pool →
      pool.jobs[turn.worker]? = some (.act action next) → invariant (pool.turn turn)) (schedule : List Turn) :
    invariant (pool.run schedule) := by
  induction schedule using List.reverseRecOn with
  | nil => exact start
  | append_singleton schedule turn ih =>
    rw [run_concat]
    rcases turn_cases (pool.run schedule) turn with same | ⟨action, next, due⟩
    · rw [same]
      exact ih
    · exact step _ turn action next ih due

theorem result_iff {worker : Nat} {value : α} :
    pool.result worker = some value ↔ pool.jobs[worker]? = some (.done value) := by
  unfold Pool.result
  split
  next other there => rw [there, Option.some.injEq, Option.some.injEq, Job.done.injEq]
  next other => exact iff_of_false nofun (other value)

theorem run_length (pool : Pool α) (schedule : List Turn) : (pool.run schedule).jobs.length = pool.jobs.length := by
  let same (other : Pool α) : Prop := other.jobs.length = pool.jobs.length
  refine @run_keeps α _ same rfl ?_ schedule
  intro other turn action next length due
  change (other.turn turn).jobs.length = _
  rw [turn_act due, List.length_set]
  exact length

section Started
variable {jobs : List (Job α)} {machine : Machine}

/-- Every step found the disk that a shorter schedule left, and was the next one of its worker then. -/
theorem run_before {schedule : List Turn} {front rest : List Event} {event : Event}
    (same : (Pool.run ⟨jobs, machine, []⟩ schedule).events = front ++ event :: rest) :
    ∃ shorter, shorter <+: schedule ∧ (Pool.run ⟨jobs, machine, []⟩ shorter).events = front ∧
      (Pool.run ⟨jobs, machine, []⟩ shorter).machine.disk = event.found.disk ∧
      ∃ next, (Pool.run ⟨jobs, machine, []⟩ shorter).jobs[event.worker]? = some (.act event.action next) := by
  induction schedule using List.reverseRecOn generalizing rest with
  | nil => cases front <;> cases same
  | append_singleton schedule turn ih =>
    rw [run_concat] at same
    rcases turn_cases (Pool.run ⟨jobs, machine, []⟩ schedule) turn with kept | ⟨action, next, due⟩
    · rw [kept] at same
      obtain ⟨shorter, leading, known⟩ := ih same
      exact ⟨shorter, leading.trans (List.prefix_append schedule [turn]), known⟩
    · rw [turn_act due] at same
      rcases List.eq_nil_or_concat rest with rfl | ⟨rest, last, rfl⟩
      · obtain ⟨events, same⟩ := List.append_inj' same rfl
        obtain rfl := List.singleton_inj.mp same
        exact ⟨schedule, List.prefix_append schedule [turn], events, rfl, next, due⟩
      · rw [List.concat_eq_append, ← List.cons_append, ← List.append_assoc] at same
        obtain ⟨shorter, leading, known⟩ := ih (List.append_inj' same rfl).1
        exact ⟨shorter, leading.trans (List.prefix_append schedule [turn]), known⟩

/-- What each job keeps of its own steps, whatever it is answered, holds of all jobs under every schedule. -/
theorem run_own {invariant : Nat → List Event → Job α → Prop}
    (start : ∀ worker job, jobs[worker]? = some job → invariant worker [] job)
    (step : ∀ worker events action next found, invariant worker events (.act action next) →
      invariant worker (events ++ [⟨worker, action, found⟩]) (next (found.perform action).1)) (schedule : List Turn) :
    ∀ worker job, (Pool.run ⟨jobs, machine, []⟩ schedule).jobs[worker]? = some job →
      invariant worker (stepsOf (Pool.run ⟨jobs, machine, []⟩ schedule).events worker) job := by
  let holds (pool : Pool α) : Prop := ∀ worker job, pool.jobs[worker]? = some job →
    invariant worker (stepsOf pool.events worker) job
  refine @run_keeps α _ holds start ?_ schedule
  intro pool turn action next holds due other job there
  by_cases same : other = turn.worker
  · subst same
    rw [jobs_own due, Option.some.injEq] at there
    subst there
    rw [turn_act due, stepsOf_concat, if_pos rfl]
    exact step turn.worker _ action next _ (holds turn.worker _ due)
  · rw [jobs_other due same] at there
    rw [turn_act due, stepsOf_concat, if_neg (Ne.symm same)]
    exact holds other job there

end Started

end Turns

end Montage.Proofs.JobPool
