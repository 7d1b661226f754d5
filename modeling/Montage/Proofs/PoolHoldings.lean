import Montage.Proofs.JobPool

/-! What jobs side by side hold. As long as each removes only files that it created itself, no file that one of them
holds is lost, and none is created a second time while it is held. -/

namespace Montage.Proofs.PoolHoldings
open JobFrame DiskFrame DiskPlaces JobPool

/-- What jobs on one machine keep to: where they create files, which of these they never remove, and where they make
directories to work in; and what they count on in the answers they get. -/
structure Terms where
  given : List String → Prop
  kept : List String → Prop
  rooms : String → Prop
  granted : (action : Action) → action.Reply → Prop

/-- A step that creates files and makes directories where it may, removes only what is held, and lets a program that is
given a time limit write only to what is held. -/
def Allows (terms : Terms) (held : List (List String)) : Action → Prop
  | .createNew path => terms.given (placeOf path)
  | .makeWorkspace parent => terms.rooms parent
  | .remove path => placeOf path ∈ held ∧ ¬ terms.kept (placeOf path)
  | .removeTree path => ∀ place, terms.given place → ¬ placeOf path <+: place
  | .runProgram _ arguments (some _) => ∀ path, arguments.getLast? = some path → placeOf path ∈ held
  | _ => True

/-- Work that keeps to the terms whatever it is answered, and what it holds in the end satisfies an assertion. -/
inductive Tidy (terms : Terms) (post : α → List (List String) → Prop) : List (List String) → Job α → Prop
  | done {held : List (List String)} {value : α} (holds : post value held) : Tidy terms post held (.done value)
  | act {held : List (List String)} {action : Action} {next : action.Reply → Job α} (asked : Allows terms held action)
      (later : ∀ reply, terms.granted action reply → Tidy terms post (hold held action reply) (next reply)) :
      Tidy terms post held (.act action next)

def Answered (terms : Terms) (event : Event) : Prop :=
  ∀ held, Allows terms held event.action → terms.granted event.action event.reply

/-- A step by which nothing is created or removed, and that is allowed to one who holds what is held. -/
def Neutral (held : List (List String)) : Action → Prop
  | .createNew _ | .makeWorkspace _ | .remove _ | .removeTree _ => False
  | .runProgram _ arguments (some _) => ∀ path, arguments.getLast? = some path → placeOf path ∈ held
  | _ => True

section Rules
variable {terms : Terms} {held : List (List String)}

private theorem neutral_allows {action : Action} (neutral : Neutral held action) : Allows terms held action := by
  cases action with
  | createNew | makeWorkspace | remove | removeTree => exact neutral.elim
  | runProgram program arguments limit =>
    cases limit with
    | none => trivial
    | some limit => exact neutral
  | _ => trivial

private theorem hold_neutral {action : Action} (neutral : Neutral held action) (reply : action.Reply) :
    hold held action reply = held := by
  unfold hold
  split
  · exact neutral.elim
  · exact neutral.elim
  · rfl

namespace Tidy
variable {post : α → List (List String) → Prop}

theorem ask {action : Action} {post : action.Reply → List (List String) → Prop} (asked : Allows terms held action)
    (holds : ∀ reply, terms.granted action reply → post reply (hold held action reply)) :
    Tidy terms post held (Job.ask action) :=
  .act asked fun reply granted => .done (holds reply granted)

theorem bind {job : Job α} {next : α → Job β} {middle : α → List (List String) → Prop}
    {post : β → List (List String) → Prop} (first : Tidy terms middle held job)
    (later : ∀ value after, middle value after → Tidy terms post after (next value)) :
    Tidy terms post held (job >>= next) := by
  induction first with
  | done holds => exact later _ _ holds
  | act asked _ ih => exact .act asked ih

theorem weaken {job : Job α} {other : α → List (List String) → Prop} (tidy : Tidy terms post held job)
    (implies : ∀ value after, post value after → other value after) : Tidy terms other held job := by
  induction tidy with
  | done holds => exact .done (implies _ _ holds)
  | act asked _ ih => exact .act asked ih

theorem of_confined {job : Job α} (confined : Confined (Neutral held) job) :
    Tidy terms (fun _ after => after = held) held job := by
  induction confined with
  | done value => exact .done rfl
  | act neutral _ ih =>
    refine .act (neutral_allows neutral) fun reply _ => ?_
    rw [hold_neutral neutral]
    exact ih reply

theorem attempt_bind {attempt : ExceptT ε Job α} {next : α → ExceptT ε Job β}
    {middle : Except ε α → List (List String) → Prop} {post : Except ε β → List (List String) → Prop}
    (first : Tidy terms middle held attempt.run)
    (later : ∀ value after, middle (.ok value) after → Tidy terms post after (next value).run)
    (failed : ∀ fault after, middle (.error fault) after → post (.error fault) after) :
    Tidy terms post held (attempt >>= next).run := by
  rw [ExceptT.run_bind]
  apply first.bind
  intro result after holds
  cases result with
  | ok value => exact later value after holds
  | error fault => exact .done (failed fault after holds)

end Tidy

end Rules

section Steps
variable {terms : Terms} {held : List (List String)} {machine : Machine} {action : Action} {place : List String}

/-- What is there stays there, unless it is the very file that is removed. -/
private theorem perform_there (allowed : Allows terms held action) (given : terms.given place)
    (there : machine.disk.at? place ≠ none) (spared : ∀ path, action = .remove path → place ≠ placeOf path) :
    (machine.perform action).2.disk.at? place ≠ none := by
  by_cases builds : Builds action
  · exact fun lost => there (perform_stays machine builds place lost)
  · cases action with
    | remove path =>
      simp only [Machine.perform]
      cases removed : machine.disk.remove path with
      | error fault => exact there
      | ok disk =>
        obtain ⟨other, content, found, -, rfl⟩ := remove_ok removed
        obtain rfl := locate_placeOf found
        change (machine.disk.erase (placeOf path)).at? place ≠ none
        rwa [at?_erase_other _ (spared path rfl)]
    | removeTree path =>
      change (machine.disk.removeTree path).at? place ≠ none
      rwa [removeTree_outside _ (allowed place given)]
    | _ => exact absurd trivial builds

theorem createNew_cases (machine : Machine) (path : String) :
    (∃ fault, machine.disk.createNew path = .error fault ∧
        machine.perform (.createNew path) = (.error fault, machine)) ∨
      machine.disk.createNew path = .ok (machine.disk.put (placeOf path) (.file .empty)) ∧
        machine.disk.at? (placeOf path) = none ∧ machine.perform (.createNew path) =
          (.ok (), { machine with disk := machine.disk.put (placeOf path) (.file .empty) }) := by
  simp only [Machine.perform]
  cases tried : machine.disk.createNew path with
  | error fault => exact .inl ⟨fault, rfl, rfl⟩
  | ok disk =>
    obtain ⟨place, found, free, rfl⟩ := createNew_ok tried
    obtain rfl := locate_placeOf found
    exact .inr ⟨rfl, free, rfl⟩

private theorem mem_hold (member : place ∈ hold held action (machine.perform action).1) :
    place ∈ held ∨ machine.disk.at? place = none := by
  cases action with
  | createNew path =>
    rcases createNew_cases machine path with ⟨fault, -, failed⟩ | ⟨-, free, done⟩
    · rw [failed] at member
      exact .inl member
    · rw [done] at member
      rcases List.mem_cons.mp member with rfl | before
      · exact .inr free
      · exact .inl before
  | remove path =>
    left
    generalize (machine.perform (.remove path)).1 = reply at member
    cases reply with
    | error fault => exact member
    | ok => exact (List.mem_filter.mp member).1
  | _ => exact .inl member

theorem mem_hold_of_mem (member : place ∈ held) (spared : ∀ path, action = .remove path → place ≠ placeOf path)
    (reply : action.Reply) : place ∈ hold held action reply := by
  unfold hold
  split
  · exact List.mem_cons_of_mem _ member
  next path => exact List.mem_filter.mpr ⟨member, decide_eq_true (spared path rfl)⟩
  · exact member

private theorem hold_there (allowed : Allows terms held action)
    (there : ∀ place ∈ held, terms.given place ∧ machine.disk.at? place ≠ none) :
    ∀ place ∈ hold held action (machine.perform action).1,
      terms.given place ∧ (machine.perform action).2.disk.at? place ≠ none := by
  intro place member
  have stays (before : place ∈ held) (spared : ∀ path, action = .remove path → place ≠ placeOf path) :
      terms.given place ∧ (machine.perform action).2.disk.at? place ≠ none :=
    ⟨(there place before).1, perform_there allowed (there place before).1 (there place before).2 spared⟩
  cases action with
  | createNew path =>
    rcases createNew_cases machine path with ⟨fault, -, failed⟩ | ⟨-, free, done⟩
    · rw [failed] at member
      exact stays member nofun
    · rw [done] at member
      rcases List.mem_cons.mp member with rfl | before
      · refine ⟨allowed, ?_⟩
        rw [done, at?_put_same _ _ (inside_of_not_directory (by rw [free]; exact nofun))]
        exact nofun
      · exact stays before nofun
  | remove path =>
    simp only [Machine.perform] at member stays ⊢
    cases removed : machine.disk.remove path with
    | error fault =>
      rw [removed] at member
      exact there place member
    | ok disk =>
      rw [removed] at member stays
      obtain ⟨before, apart⟩ := List.mem_filter.mp member
      refine stays before ?_
      rintro _ ⟨rfl⟩
      exact of_decide_eq_true apart
  | _ =>
    refine stays member fun path same => ?_
    cases same

theorem mem_hold_of_created {event : Event} {path : String} (created : event.created = some path) :
    placeOf path ∈ hold held event.action event.reply ∧ event.found.disk.at? (placeOf path) = none := by
  obtain ⟨worker, action, found⟩ := event
  cases action with
  | createNew other =>
    unfold Event.created at created
    rcases createNew_cases found other with ⟨fault, failed, -⟩ | ⟨put, free, done⟩
    · simp only [failed] at created
      cases created
    · simp only [put, Option.some.injEq] at created
      subst created
      simp only [Event.reply, done]
      exact ⟨List.mem_cons_self, free⟩
  | _ => cases created

/-- All jobs keep to the terms; what they hold is there, and held by one of them only. -/
structure Orderly (terms : Terms) (post : Nat → α → List (List String) → Prop) (pool : Pool α) : Prop where
  tidy : ∀ worker job, pool.jobs[worker]? = some job → Tidy terms (post worker) (heldBy pool.events worker) job
  there : ∀ worker, ∀ place ∈ heldBy pool.events worker, terms.given place ∧ pool.machine.disk.at? place ≠ none
  apart : ∀ first second, ∀ place ∈ heldBy pool.events first, place ∈ heldBy pool.events second → first = second
  kept : ∀ event ∈ pool.events, ∀ path, event.created = some path → terms.kept (placeOf path) →
    placeOf path ∈ heldBy pool.events event.worker

end Steps

section Turns
variable {terms : Terms} {post : Nat → α → List (List String) → Prop} {pool : Pool α} {turn : Turn} {action : Action}
  {next : action.Reply → Job α} (orderly : Orderly terms post pool)
  (due : pool.jobs[turn.worker]? = some (.act action next))
include orderly due

private theorem turn_allowed : Allows terms (heldBy pool.events turn.worker) action := by
  cases orderly.tidy turn.worker _ due with
  | act asked later => exact asked

private theorem turn_tidy (answered : Answered terms ⟨turn.worker, action, turn.found pool.machine⟩) : ∀ worker job,
    (pool.turn turn).jobs[worker]? = some job →
      Tidy terms (post worker) (heldBy (pool.turn turn).events worker) job := by
  intro worker job there
  by_cases same : worker = turn.worker
  · subst same
    rw [jobs_own due, Option.some.injEq] at there
    subst there
    rw [held_own due]
    cases orderly.tidy turn.worker _ due with
    | act asked later => exact later _ (answered _ asked)
  · rw [jobs_other due same] at there
    rw [held_other due same]
    exact orderly.tidy worker job there

private theorem turn_there : ∀ worker, ∀ place ∈ heldBy (pool.turn turn).events worker,
    terms.given place ∧ (pool.turn turn).machine.disk.at? place ≠ none := by
  have allowed := turn_allowed orderly due
  intro worker place member
  rw [turn_act due]
  by_cases same : worker = turn.worker
  · subst same
    rw [held_own due] at member
    have there : ∀ place ∈ heldBy pool.events turn.worker,
        terms.given place ∧ (turn.found pool.machine).disk.at? place ≠ none := orderly.there turn.worker
    exact hold_there allowed there place member
  · rw [held_other due same] at member
    obtain ⟨given, there⟩ := orderly.there worker place member
    -- A step removes only what its own worker holds, and this place is held by another one.
    refine ⟨given, perform_there allowed given there ?_⟩
    rintro path rfl rfl
    exact same (orderly.apart worker turn.worker _ member allowed.1)

private theorem turn_unheld {other : Nat} (differs : other ≠ turn.worker) {place : List String}
    (member : place ∈ heldBy (pool.turn turn).events turn.worker)
    (also : place ∈ heldBy (pool.turn turn).events other) : False := by
  rw [held_own due] at member
  rw [held_other due differs] at also
  rcases mem_hold member with before | free
  · exact differs (orderly.apart other turn.worker place also before)
  · exact (orderly.there other place also).2 free

private theorem turn_apart : ∀ first second, ∀ place ∈ heldBy (pool.turn turn).events first,
    place ∈ heldBy (pool.turn turn).events second → first = second := by
  intro first second place one two
  by_cases same : first = turn.worker
  · subst same
    exact Decidable.byContradiction fun differs => turn_unheld orderly due (Ne.symm differs) one two
  · by_cases equal : second = turn.worker
    · subst equal
      exact (turn_unheld orderly due same two one).elim
    · rw [held_other due same] at one
      rw [held_other due equal] at two
      exact orderly.apart first second place one two

private theorem turn_kept : ∀ event ∈ (pool.turn turn).events, ∀ path, event.created = some path →
    terms.kept (placeOf path) → placeOf path ∈ heldBy (pool.turn turn).events event.worker := by
  intro event member path created kept
  have events : (pool.turn turn).events = pool.events ++ [⟨turn.worker, action, turn.found pool.machine⟩] := by
    rw [turn_act due]
  rw [events, List.mem_append, List.mem_singleton] at member
  rcases member with before | rfl
  · have held := orderly.kept event before path created kept
    by_cases same : event.worker = turn.worker
    · rw [same] at held ⊢
      rw [held_own due]
      refine mem_hold_of_mem held ?_ _
      rintro removed rfl equal
      exact (turn_allowed orderly due).2 (equal ▸ kept)
    · rw [held_other due same]
      exact held
  · change placeOf path ∈ heldBy (pool.turn turn).events turn.worker
    rw [held_own due]
    exact (mem_hold_of_created created).1

private theorem orderly_turn (answered : Answered terms ⟨turn.worker, action, turn.found pool.machine⟩) :
    Orderly terms post (pool.turn turn) :=
  ⟨turn_tidy orderly due answered, turn_there orderly due, turn_apart orderly due, turn_kept orderly due⟩

end Turns

section Pools
variable {terms : Terms} {post : Nat → α → List (List String) → Prop}

/-- Jobs that keep to the terms do so under every schedule, as long as they get the answers that they count on. -/
theorem orderly_run {jobs : List (Job α)} {machine : Machine}
    (start : ∀ worker job, jobs[worker]? = some job → Tidy terms (post worker) [] job) (schedule : List Turn)
    (answered : ∀ event ∈ (Pool.run ⟨jobs, machine, []⟩ schedule).events, Answered terms event) :
    Orderly terms post (Pool.run ⟨jobs, machine, []⟩ schedule) := by
  induction schedule using List.reverseRecOn with
  | nil => exact ⟨start, nofun, nofun, nofun⟩
  | append_singleton schedule turn ih =>
    rw [run_concat] at answered ⊢
    rcases turn_cases (Pool.run ⟨jobs, machine, []⟩ schedule) turn with same | ⟨action, next, due⟩
    · rw [same] at answered ⊢
      exact ih answered
    · rw [turn_act due] at answered
      refine orderly_turn (ih fun event member => ?_) due ?_
      · exact answered event (List.mem_append_left _ member)
      · exact answered ⟨turn.worker, action, _⟩ (List.mem_append_right _ List.mem_cons_self)

section Before
variable {jobs : List (Job α)} {machine : Machine} {schedule : List Turn} {front rest : List Event} {event : Event}
  (start : ∀ worker job, jobs[worker]? = some job → Tidy terms (post worker) [] job)
  (answered : ∀ event ∈ (Pool.run ⟨jobs, machine, []⟩ schedule).events, Answered terms event)
  (same : (Pool.run ⟨jobs, machine, []⟩ schedule).events = front ++ event :: rest)
include start answered same

private theorem orderly_before : ∃ pool, Orderly terms post pool ∧ pool.events = front ∧
    pool.machine.disk = event.found.disk ∧ ∃ next, pool.jobs[event.worker]? = some (.act event.action next) := by
  obtain ⟨shorter, -, events, found, due⟩ := run_before same
  refine ⟨_, orderly_run start shorter ?_, events, found, due⟩
  intro other member
  rw [events] at member
  exact answered other (by rw [same]; exact List.mem_append_left _ member)

theorem allowed_before : Allows terms (heldBy front event.worker) event.action := by
  obtain ⟨pool, orderly, rfl, -, next, due⟩ := orderly_before start answered same
  cases orderly.tidy event.worker _ due with
  | act asked later => exact asked

theorem created_unheld {path : String} (created : event.created = some path) (worker : Nat) :
    placeOf path ∉ heldBy front worker := by
  obtain ⟨pool, orderly, rfl, found, -⟩ := orderly_before start answered same
  intro held
  refine (orderly.there worker _ held).2 ?_
  rw [found]
  exact (@mem_hold_of_created [] event path created).2

end Before

end Pools

end Montage.Proofs.PoolHoldings
