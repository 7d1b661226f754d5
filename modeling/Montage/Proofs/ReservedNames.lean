import Montage.Proofs.PoolHoldings
import Montage.Proofs.RenderNames

/-! Files that are reserved side by side. Whatever names are asked for, and however the attempts are interleaved, each
call that succeeds creates a file of its own, and one that finds no free name has tried a thousand and one. -/

namespace Montage.Proofs.ReservedNames
open Montage.Render JobFrame DiskFrame DiskPlaces PathJoin RenderNames JobPool PoolHoldings

section Names
variable {name : String}

private theorem cutExtension_cases (name : List Char) : Path.cutExtension name = (name, none) ∨
    ∃ stem extension, Path.cutExtension name = (stem, some extension) ∧
      stem.length + 1 + extension.length = name.length ∧ stem ⊆ name ∧ extension ⊆ name := by
  unfold Path.cutExtension
  simp only
  have short := List.takeWhile_prefix (· ≠ '.') (l := name.reverse)
  have bound := short.length_le
  rw [List.length_reverse] at bound
  split
  · exact .inl rfl
  next long =>
    obtain ⟨-, long⟩ := not_or.mp long
    refine .inr ⟨_, _, rfl, ?_, List.take_subset _ _, ?_⟩
    · simp only [List.length_take, List.length_reverse] at long bound ⊢
      omega
    · intro c member
      exact List.mem_reverse.mp (short.subset (List.mem_reverse.mp member))

private theorem fileName_whole (whole : '/' ∉ name.toList) :
    Path.fileName name = none ∨ Path.fileName name = some name := by
  cases named : Path.fileName name with
  | none => exact .inl rfl
  | some last =>
    obtain ⟨same, -⟩ := fileName_iff.mp named
    have member := (List.mem_filter.mp (List.mem_of_getLast? same)).1
    rw [parts_whole whole, List.mem_singleton] at member
    exact .inr (congrArg some member)

/-- A number goes between what is before the extension and the extension. -/
theorem numbered_shape (whole : '/' ∉ name.toList) : ∃ front back, '/' ∉ front ∧ '/' ∉ back ∧
    front.length + back.length = name.toList.length ∧
      ∀ number, (Audit.numbered name number).toList = front ++ '_' :: (toString number).toList ++ back := by
  rcases fileName_whole whole with unnamed | named
  · exact ⟨name.toList, [], whole, List.not_mem_nil, rfl, by simp [Audit.numbered, Path.stem, Path.extension, unnamed]⟩
  · rcases cutExtension_cases name.toList with uncut | ⟨stem, extension, cut, length, front, back⟩
    · exact ⟨name.toList, [], whole, List.not_mem_nil, rfl,
        by simp [Audit.numbered, Path.stem, Path.extension, named, uncut]⟩
    · refine ⟨stem, '.' :: extension, fun slash => whole (front slash), ?_, ?_, ?_⟩
      · rintro (_ | ⟨_, slash⟩)
        exact whole (back slash)
      · simp only [List.length_cons]
        omega
      · simp [Audit.numbered, Path.stem, Path.extension, named, cut]

private theorem numbered_plain (whole : '/' ∉ name.toList) (number : Nat) : Plain (Audit.numbered name number) := by
  obtain ⟨front, back, front_whole, back_whole, -, shape⟩ := numbered_shape whole
  have score : '_' ∈ (Audit.numbered name number).toList := by simp [shape]
  have apart : ∀ other : String, '_' ∉ other.toList → Audit.numbered name number ≠ other := by
    rintro other without rfl
    exact without score
  refine ⟨apart "" (by decide), apart "." (by decide), apart ".." (by decide), ?_⟩
  rw [shape]
  simp only [List.mem_append, List.mem_cons, front_whole, back_whole, digits_no_slash, or_false, false_or]
  decide

private theorem numbered_injective (whole : '/' ∉ name.toList) {first second : Nat}
    (same : Audit.numbered name first = Audit.numbered name second) : first = second := by
  obtain ⟨front, back, -, -, -, shape⟩ := numbered_shape whole
  have chars := congrArg String.toList same
  rw [shape, shape] at chars
  have digits := List.cons_inj_right _ |>.mp (List.append_cancel_left (List.append_cancel_right chars))
  exact FilterLabels.toDigits_injective (by simpa using digits)

private theorem numbered_ne (whole : '/' ∉ name.toList) (number : Nat) : Audit.numbered name number ≠ name := by
  obtain ⟨front, back, -, -, length, shape⟩ := numbered_shape whole
  intro same
  have longer := congrArg List.length (shape number)
  rw [same] at longer
  simp only [List.length_append, List.length_cons] at longer
  omega

private theorem placeOf_whole (directory : String) (whole : '/' ∉ name.toList) :
    placeOf (Path.join directory name) = lead (placeOf directory) [name] := by
  have relative : name.startsWith "/" = false := by
    rw [Bool.eq_false_iff]
    intro absolute
    rw [String.startsWith_string_iff, slash_toList] at absolute
    exact whole (absolute.subset (by simp))
  obtain ⟨front, parts, -, leads⟩ := parts_behind directory relative
  rw [placeOf, parts, parts_whole whole, lead_append, leads]

private theorem candidates_apart (directory : String) (whole : '/' ∉ name.toList) :
    ((Audit.candidates name).map fun candidate => placeOf (Path.join directory candidate)).Nodup := by
  have place (number : Nat) : placeOf (Path.join directory (Audit.numbered name number)) =
      placeOf directory ++ [Audit.numbered name number] := placeOf_join _ (numbered_plain whole number)
  rw [Audit.candidates, List.map_cons, List.map_map, List.nodup_cons]
  constructor
  · intro member
    obtain ⟨index, -, same⟩ := List.mem_map.mp member
    simp only [Function.comp_apply, place, placeOf_whole directory whole] at same
    have length := congrArg List.length same
    simp only [lead] at same length
    split at same
    next skip => simp [skip] at length
    next down =>
      split at same
      next up =>
        simp [up] at length
        omega
      next => exact numbered_ne whole _ (List.singleton_inj.mp (List.append_cancel_left same))
  · apply FilterLabels.nodup_numbered
    intro first second same
    simp only [Function.comp_apply, place] at same
    have numbers := numbered_injective whole (List.singleton_inj.mp (List.append_cancel_left same))
    omega

end Names

/-- A call that reserves a file in a directory, under a name or that name with a number. -/
structure Call where
  directory : String
  name : String

def Call.job (call : Call) : Job (Except DiskFault String) :=
  Audit.reserve call.directory call.name

def Taken (directory : String) (event : Event) (candidate : String) : Prop :=
  event.action = .createNew (Path.join directory candidate) ∧
    event.found.disk.createNew (Path.join directory candidate) = .error .alreadyExists

/-- Where a call stands after its steps: it goes on with the names that are left as long as those before are taken. -/
inductive Stands (directory name : String) : List Event → Job (Except DiskFault String) → Prop
  | trying {events : List Event} {tried rest : List String} {job : Job (Except DiskFault String)}
      (names : Audit.candidates name = tried ++ rest) (taken : List.Forall₂ (Taken directory) events tried)
      (going : job = Audit.reserveFirst directory name rest) : Stands directory name events job
  | found {events : List Event} {event : Event} {tried rest : List String} {candidate : String}
      (names : Audit.candidates name = tried ++ candidate :: rest)
      (taken : List.Forall₂ (Taken directory) events tried)
      (asked : event.action = .createNew (Path.join directory candidate))
      (created : event.created = some (Path.join directory candidate)) :
      Stands directory name (events ++ [event]) (.done (.ok (Path.join directory candidate)))
  | failed {events : List Event} {event : Event} {tried : List String} {path : String} {fault : DiskFault}
      (taken : List.Forall₂ (Taken directory) events tried) (asked : event.action = .createNew path)
      (refused : event.created = none) (other : ∀ name directory, fault ≠ .noFreeName name directory) :
      Stands directory name (events ++ [event]) (.done (.error fault))

section Steps
variable {directory name : String} {events : List Event}

private theorem reserveFirst_cons (candidate : String) (rest : List String) :
    Audit.reserveFirst directory name (candidate :: rest) =
      .act (.createNew (Path.join directory candidate)) fun
        | .ok () => .done (.ok (Path.join directory candidate))
        | .error .alreadyExists => Audit.reserveFirst directory name rest
        | .error fault => .done (.error fault) := by
  refine congrArg (Job.act _) (funext fun reply => ?_)
  rcases reply with fault | ⟨⟩
  · cases fault <;> rfl
  · rfl

private theorem walk_fault {disk : Disk} {here parts : List String} {fault : DiskFault}
    (failed : disk.walk here parts = .error fault) : ∀ name directory, fault ≠ .noFreeName name directory := by
  induction parts generalizing here with
  | nil => cases failed
  | cons part rest ih =>
    unfold Disk.walk at failed
    split at failed
    · cases failed
      exact nofun
    · cases failed
      exact nofun
    · split at failed
      · exact ih failed
      · split at failed
        · exact ih failed
        · split at failed
          · cases failed
            exact nofun
          · exact ih failed

private theorem createNew_fault {disk : Disk} {path : String} {fault : DiskFault}
    (failed : disk.createNew path = .error fault) :
    ∀ name directory, fault ≠ .noFreeName name directory := by
  unfold Disk.createNew Disk.locate Disk.unusable at failed
  split at failed
  next stuck =>
    cases failed
    split at stuck
    next unusable =>
      cases stuck
      split_ifs at unusable <;> cases unusable <;> exact nofun
    next => exact walk_fault stuck
  next =>
    split at failed
    · cases failed
      exact nofun
    · cases failed

private theorem stands_step {action : Action} {next : action.Reply → Job (Except DiskFault String)}
    (stands : Stands directory name events (.act action next)) (worker : Nat) (found : Machine) :
    Stands directory name (events ++ [⟨worker, action, found⟩]) (next (found.perform action).1) := by
  cases stands with
  | @trying _ tried rest _ names taken going =>
    cases rest with
    | nil => cases going
    | cons candidate rest =>
      rw [reserveFirst_cons] at going
      cases going
      rcases createNew_cases found (Path.join directory candidate) with ⟨fault, failed, done⟩ | ⟨put, -, done⟩
      · rw [done]
        have refused : (Event.mk worker (.createNew (Path.join directory candidate)) found).created = none := by
          simp only [Event.created, failed]
        cases fault with
        | alreadyExists =>
          refine .trying (by rw [names, List.append_cons]) ?_ rfl
          exact List.rel_append taken (.cons ⟨rfl, failed⟩ .nil)
        | _ => exact .failed taken rfl refused (createNew_fault failed)
      · rw [done]
        exact .found names taken rfl (by simp only [Event.created, put])

section Taken
variable {tried : List String} (taken : List.Forall₂ (Taken directory) events tried)
include taken

private theorem taken_creates : ∀ event ∈ events, ∃ path, event.action = .createNew path := by
  induction taken with
  | nil => nofun
  | cons first _ ih => exact List.forall_mem_cons.mpr ⟨⟨_, first.1⟩, ih⟩

theorem taken_created : events.filterMap Event.created = [] := by
  induction taken with
  | nil => rfl
  | @cons event candidate _ _ first _ ih =>
    have nothing : event.created = none := by
      obtain ⟨worker, action, found⟩ := event
      obtain ⟨rfl, refused⟩ := first
      simp only [Event.created, refused]
    rw [List.filterMap_cons_none nothing, ih]

private theorem mem_taken : ∀ candidate ∈ tried, ∃ event ∈ events, Taken directory event candidate := by
  induction taken with
  | nil => nofun
  | cons first _ ih =>
    refine List.forall_mem_cons.mpr ⟨⟨_, List.mem_cons_self, first⟩, fun candidate member => ?_⟩
    obtain ⟨event, among, found⟩ := ih candidate member
    exact ⟨event, List.mem_cons_of_mem _ among, found⟩

end Taken

private theorem stands_creates {job : Job (Except DiskFault String)} (stands : Stands directory name events job) :
    ∀ event ∈ events, ∃ path, event.action = .createNew path := by
  cases stands with
  | trying _ taken _ => exact taken_creates taken
  | found _ taken asked _ | failed taken asked _ _ =>
    exact List.forall_mem_append.mpr ⟨taken_creates taken, List.forall_mem_singleton.mpr ⟨_, asked⟩⟩

def returned : Job (Except DiskFault String) → List String
  | .done (.ok path) => [path]
  | _ => []

/-- A call creates a file if and only if it succeeds, and that is the one it returns. -/
theorem stands_created {job : Job (Except DiskFault String)} (stands : Stands directory name events job) :
    events.filterMap Event.created = returned job := by
  cases stands with
  | @trying _ _ rest _ _ taken going =>
    rw [taken_created taken, going]
    cases rest <;> rfl
  | found _ taken _ created => simp [List.filterMap_append, taken_created taken, created, returned]
  | failed taken _ refused _ => simp [List.filterMap_append, taken_created taken, refused, returned]

private theorem mem_returned {job : Job (Except DiskFault String)} {path : String} :
    path ∈ returned job ↔ job = .done (.ok path) := by
  unfold returned
  split
  next other => simp [eq_comm]
  next other => exact iff_of_false List.not_mem_nil (other path)

private theorem stands_ok {path : String} (stands : Stands directory name events (.done (.ok path))) :
    ∃ candidate ∈ Audit.candidates name, path = Path.join directory candidate := by
  cases stands with
  | @trying _ _ rest _ _ _ going => cases rest <;> cases going
  | @found _ _ _ _ candidate names => exact ⟨candidate, by simp [names], rfl⟩

private theorem stands_exhausted {other elsewhere : String}
    (stands : Stands directory name events (.done (.error (.noFreeName other elsewhere)))) :
    other = name ∧ elsewhere = directory ∧ ∀ candidate ∈ Audit.candidates name, ∃ event ∈ events,
      Taken directory event candidate := by
  cases stands with
  | @trying _ tried rest _ names taken going =>
    cases rest with
    | nil =>
      cases going
      rw [names, List.append_nil]
      exact ⟨rfl, rfl, mem_taken taken⟩
    | cons => cases going
  | failed _ _ _ differs => exact absurd rfl (differs other elsewhere)

/-- What a call holds in the end besides what was held: the file that it created, if it succeeded. -/
def Reserves (directory : String) (candidates : List String) (held : List (List String)) :
    Except DiskFault String → List (List String) → Prop
  | .ok path, after =>
    (∃ candidate ∈ candidates, path = Path.join directory candidate) ∧ after = placeOf path :: held
  | .error _, after => after = held

theorem reserveFirst_tidy {terms : Terms} {held : List (List String)} {candidates : List String}
    (given : ∀ candidate ∈ candidates, terms.given (placeOf (Path.join directory candidate))) :
    Tidy terms (Reserves directory candidates held) held (Audit.reserveFirst directory name candidates) := by
  induction candidates with
  | nil => exact .done rfl
  | cons candidate rest ih =>
    obtain ⟨first, later⟩ := List.forall_mem_cons.mp given
    rw [reserveFirst_cons]
    refine .act first fun reply _ => ?_
    rcases reply with fault | ⟨⟩
    · cases fault with
      | alreadyExists =>
        refine (ih later).weaken fun result after holds => ?_
        cases result with
        | ok path =>
          obtain ⟨⟨other, member, same⟩, added⟩ := holds
          exact ⟨⟨other, List.mem_cons_of_mem _ member, same⟩, added⟩
        | error fault => exact holds
      | _ => exact .done rfl
    · exact .done ⟨⟨candidate, List.mem_cons_self, rfl⟩, rfl⟩

end Steps

/-- What calls that reserve files have done, and what is left of them, at any time. -/
structure Reserved (calls : List Call) (start : Machine) (pool : Pool (Except DiskFault String)) : Prop where
  /-- A call that succeeds returns a path under one of its names, which did not exist when it was created. -/
  fresh : ∀ worker path, pool.result worker = some (.ok path) → ∃ call, calls[worker]? = some call ∧
    (∃ candidate ∈ Audit.candidates call.name, path = Path.join call.directory candidate) ∧
      ∃ event ∈ pool.events, event.worker = worker ∧ event.created = some path ∧
        event.found.disk.at? (placeOf path) = none
  /-- No two calls return the same. -/
  unique : ∀ first second path other, pool.result first = some (.ok path) → pool.result second = some (.ok other) →
    placeOf path = placeOf other → first = second
  /-- A call creates one file if it succeeds, and none else. -/
  created : ∀ worker call, calls[worker]? = some call → createdBy pool.events worker =
    match pool.result worker with
    | some (.ok path) => [path]
    | _ => []
  /-- The files that are returned are new and empty, and nothing else is different. -/
  made : ∀ worker path, pool.result worker = some (.ok path) →
    start.disk.at? (placeOf path) = none ∧ pool.machine.disk.at? (placeOf path) = some (.file .empty)
  others : ∀ place, (∀ worker path, pool.result worker = some (.ok path) → placeOf path ≠ place) →
    pool.machine.disk.at? place = start.disk.at? place
  kept : ∀ place entry, start.disk.at? place = some entry → pool.machine.disk.at? place = some entry
  /-- A call that found no free name has tried all of its names, which lead to as many places, and found each taken. -/
  exhausted : ∀ worker name directory, pool.result worker = some (.error (.noFreeName name directory)) →
    ∃ call, calls[worker]? = some call ∧ name = call.name ∧ directory = call.directory ∧
      (Audit.candidates name).length = 1001 ∧
      ((Audit.candidates name).map fun candidate => placeOf (Path.join directory candidate)).Nodup ∧
      ∀ candidate ∈ Audit.candidates name, ∃ event ∈ pool.events, event.worker = worker ∧ Taken directory event candidate

section Pools
variable {calls : List Call} {machine : Machine} {schedule : List Turn}

theorem calls_stand (calls : List Call) (machine : Machine) (schedule : List Turn) : ∀ worker job,
    (Pool.run ⟨calls.map Call.job, machine, []⟩ schedule).jobs[worker]? = some job →
    ∃ call, calls[worker]? = some call ∧ Stands call.directory call.name
        (stepsOf (Pool.run ⟨calls.map Call.job, machine, []⟩ schedule).events worker) job := by
  let invariant (worker : Nat) (events : List Event) (job : Job (Except DiskFault String)) : Prop :=
    ∃ call, calls[worker]? = some call ∧ Stands call.directory call.name events job
  refine @run_own _ _ machine invariant ?_ ?_ schedule
  · intro worker job there
    rw [List.getElem?_map, Option.map_eq_some_iff] at there
    obtain ⟨call, known, rfl⟩ := there
    have all : Audit.candidates call.name = [] ++ Audit.candidates call.name := rfl
    exact ⟨call, known, .trying all .nil rfl⟩
  · rintro worker events action next found ⟨call, known, stands⟩
    exact ⟨call, known, stands_step stands worker found⟩

/-- Steps that only create files leave all others as they were. -/
structure Added (before : Disk) (events : List Event) (after : Disk) : Prop where
  made : ∀ event ∈ events, ∀ path, event.created = some path →
    before.at? (placeOf path) = none ∧ after.at? (placeOf path) = some (.file .empty)
  others : ∀ place, (∀ event ∈ events, ∀ path, event.created = some path → placeOf path ≠ place) →
    after.at? place = before.at? place

private theorem added_create {before : Disk} {events : List Event} {found : Machine}
    (added : Added before events found.disk)
    (worker : Nat) (path : String) : Added before (events ++ [⟨worker, .createNew path, found⟩])
      (found.perform (.createNew path)).2.disk := by
  rcases createNew_cases found path with ⟨fault, failed, done⟩ | ⟨put, free, done⟩
  · have nothing : (Event.mk worker (.createNew path) found).created = none := by simp only [Event.created, failed]
    rw [done]
    constructor
    · intro event member other created
      rcases List.mem_append.mp member with earlier | last
      · exact added.made event earlier other created
      · rw [List.mem_singleton.mp last, nothing] at created
        cases created
    · intro place apart
      exact added.others place fun event member => apart event (List.mem_append_left _ member)
  · have new : (Event.mk worker (.createNew path) found).created = some path := by simp only [Event.created, put]
    rw [done]
    constructor
    · intro event member other created
      rcases List.mem_append.mp member with earlier | last
      · obtain ⟨absent, there⟩ := added.made event earlier other created
        refine ⟨absent, ?_⟩
        rw [at?_put_other]
        · exact there
        · intro same
          rw [same, free] at there
          cases there
      · rw [List.mem_singleton.mp last, new] at created
        obtain rfl := Option.some.inj created
        refine ⟨?_, at?_put_same _ _ (inside_of_not_directory (by rw [free]; exact nofun))⟩
        rw [← free, added.others]
        intro event earlier other created same
        rw [← same, (added.made event earlier other created).2] at free
        cases free
    · intro place apart
      have other : place ≠ placeOf path :=
        (apart _ (List.mem_append_right _ List.mem_cons_self) path new).symm
      exact (at?_put_other _ _ other).trans
        (added.others place fun event member => apart event (List.mem_append_left _ member))

private theorem run_added {jobs : List (Job α)} (creates : ∀ event ∈ (Pool.run ⟨jobs, machine, []⟩ schedule).events,
    ∃ path, event.action = .createNew path) : Added machine.disk (Pool.run ⟨jobs, machine, []⟩ schedule).events
      (Pool.run ⟨jobs, machine, []⟩ schedule).machine.disk := by
  induction schedule using List.reverseRecOn with
  | nil => exact ⟨nofun, fun _ _ => rfl⟩
  | append_singleton schedule turn ih =>
    rw [run_concat] at creates ⊢
    rcases turn_cases (Pool.run ⟨jobs, machine, []⟩ schedule) turn with same | ⟨action, next, due⟩
    · rw [same] at creates ⊢
      exact ih creates
    · rw [turn_act due] at creates ⊢
      obtain ⟨path, rfl⟩ := creates ⟨turn.worker, action, _⟩ (List.mem_append_right _ List.mem_cons_self)
      refine added_create ?_ turn.worker path
      exact ih fun event member => creates event (List.mem_append_left _ member)

def freely : Terms where
  given _ := True
  kept _ := False
  rooms _ := True
  granted _ _ := True

private theorem calls_orderly (calls : List Call) (machine : Machine) (schedule : List Turn) :
    Orderly freely (fun _ result held => ∀ path, result = .ok path → placeOf path ∈ held)
      (Pool.run ⟨calls.map Call.job, machine, []⟩ schedule) := by
  refine orderly_run (fun worker job there => ?_) schedule fun _ _ _ _ => trivial
  rw [List.getElem?_map, Option.map_eq_some_iff] at there
  obtain ⟨call, -, rfl⟩ := there
  refine (reserveFirst_tidy fun _ _ => trivial).weaken ?_
  rintro _ after holds path rfl
  rw [holds.2]
  exact List.mem_cons_self

private theorem event_stands {event : Event}
    (member : event ∈ (Pool.run ⟨calls.map Call.job, machine, []⟩ schedule).events) :
    ∃ call job, calls[event.worker]? = some call ∧
      (Pool.run ⟨calls.map Call.job, machine, []⟩ schedule).jobs[event.worker]? = some job ∧
      Stands call.directory call.name
        (stepsOf (Pool.run ⟨calls.map Call.job, machine, []⟩ schedule).events event.worker) job := by
  obtain ⟨front, rest, same⟩ := List.append_of_mem member
  obtain ⟨shorter, -, -, -, next, due⟩ := run_before same
  have inside := (List.getElem?_eq_some_iff.mp due).1
  rw [run_length, ← run_length ⟨calls.map Call.job, machine, []⟩ schedule] at inside
  obtain ⟨call, known, stands⟩ := calls_stand calls machine schedule _ _ (List.getElem?_eq_getElem inside)
  exact ⟨call, _, known, List.getElem?_eq_getElem inside, stands⟩

private theorem event_returned {event : Event}
    (member : event ∈ (Pool.run ⟨calls.map Call.job, machine, []⟩ schedule).events)
    {path : String} (created : event.created = some path) :
    (Pool.run ⟨calls.map Call.job, machine, []⟩ schedule).result event.worker = some (.ok path) := by
  obtain ⟨call, job, -, there, stands⟩ := event_stands member
  have among := List.mem_filterMap.mpr ⟨event, mem_stepsOf.mpr ⟨member, rfl⟩, created⟩
  rw [stands_created stands, mem_returned] at among
  rw [result_iff, there, among]

private theorem returned_event {worker : Nat} {path : String}
    (result : (Pool.run ⟨calls.map Call.job, machine, []⟩ schedule).result worker = some (.ok path)) :
    ∃ event ∈ (Pool.run ⟨calls.map Call.job, machine, []⟩ schedule).events, event.worker = worker ∧
      event.created = some path := by
  obtain ⟨call, -, stands⟩ := calls_stand calls machine schedule worker _ (result_iff.mp result)
  have among : path ∈ returned (.done (.ok path)) := mem_returned.mpr rfl
  rw [← stands_created stands, List.mem_filterMap] at among
  obtain ⟨event, member, created⟩ := among
  obtain ⟨member, own⟩ := mem_stepsOf.mp member
  exact ⟨event, member, own, created⟩

/-- Calls that reserve files side by side never get in each other's way, whatever is on the disk, whatever names they
ask for, and whoever takes the next step. -/
theorem calls_reserved (whole : ∀ call ∈ calls, '/' ∉ call.name.toList) (start : Machine) (schedule : List Turn) :
    Reserved calls start (Pool.run ⟨calls.map Call.job, start, []⟩ schedule) := by
  have creates : ∀ event ∈ (Pool.run ⟨calls.map Call.job, start, []⟩ schedule).events,
      ∃ path, event.action = .createNew path := by
    intro event member
    obtain ⟨call, job, -, -, stands⟩ := event_stands member
    exact stands_creates stands event (mem_stepsOf.mpr ⟨member, rfl⟩)
  have added := run_added creates
  have stand := calls_stand calls start schedule
  have made : ∀ worker path, (Pool.run ⟨calls.map Call.job, start, []⟩ schedule).result worker = some (.ok path) →
      start.disk.at? (placeOf path) = none ∧
        (Pool.run ⟨calls.map Call.job, start, []⟩ schedule).machine.disk.at? (placeOf path) = some (.file .empty) := by
    intro worker path result
    obtain ⟨event, member, -, created⟩ := returned_event result
    exact added.made event member path created
  have others : ∀ place, (∀ worker path,
      (Pool.run ⟨calls.map Call.job, start, []⟩ schedule).result worker = some (.ok path) → placeOf path ≠ place) →
        (Pool.run ⟨calls.map Call.job, start, []⟩ schedule).machine.disk.at? place = start.disk.at? place := by
    intro place apart
    exact added.others place fun event member path created =>
      apart event.worker path (event_returned member created)
  constructor
  case fresh =>
    intro worker path result
    obtain ⟨call, known, stands⟩ := stand worker _ (result_iff.mp result)
    obtain ⟨event, member, own, created⟩ := returned_event result
    exact ⟨call, known, stands_ok stands, event, member, own, created, (@mem_hold_of_created [] _ _ created).2⟩
  case unique =>
    intro first second path other one two same
    have orderly := calls_orderly calls start schedule
    have held {worker : Nat} {path : String}
        (result : (Pool.run ⟨calls.map Call.job, start, []⟩ schedule).result worker = some (.ok path)) :
        placeOf path ∈ heldBy (Pool.run ⟨calls.map Call.job, start, []⟩ schedule).events worker := by
      cases orderly.tidy worker _ (result_iff.mp result) with
      | done holds => exact holds path rfl
    exact orderly.apart first second (placeOf path) (held one) (same ▸ held two)
  case created =>
    intro worker call known
    have inside : worker < (Pool.run ⟨calls.map Call.job, start, []⟩ schedule).jobs.length := by
      rw [run_length, List.length_map]
      exact (List.getElem?_eq_some_iff.mp known).1
    have there := List.getElem?_eq_getElem inside
    obtain ⟨_, -, stands⟩ := stand worker _ there
    rw [createdBy, stands_created stands, Pool.result, there]
    cases (Pool.run ⟨calls.map Call.job, start, []⟩ schedule).jobs[worker] with
    | done value => cases value <;> rfl
    | act => rfl
  case made => exact made
  case others => exact others
  case kept =>
    intro place entry there
    rw [others place, there]
    rintro worker path result rfl
    rw [(made worker path result).1] at there
    cases there
  case exhausted =>
    intro worker name directory result
    obtain ⟨call, known, stands⟩ := stand worker _ (result_iff.mp result)
    obtain ⟨rfl, rfl, taken⟩ := stands_exhausted stands
    refine ⟨call, known, rfl, rfl, ?_, candidates_apart _ (whole call (List.mem_of_getElem? known)), ?_⟩
    · simp [Audit.candidates, Audit.mostNumbered]
    · intro candidate member
      obtain ⟨event, among, found⟩ := taken candidate member
      obtain ⟨among, own⟩ := mem_stepsOf.mp among
      exact ⟨event, among, own, found⟩

end Pools

end Montage.Proofs.ReservedNames
