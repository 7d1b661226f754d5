import Montage.Proofs.DiskTree
import Montage.Proofs.JobLogic

/-! What work leaves alone. The paths in the steps that work may ask for, whatever it is answered, bound
what can be different on the disk afterwards. -/

namespace Montage.Proofs.JobFrame
open Montage.Render JobLogic DiskFrame DiskPlaces DiskTree

inductive Confined (allowed : Action → Prop) : Job α → Prop
  | done (value : α) : Confined allowed (.done value)
  | act {action : Action} {next : action.Reply → Job α} (asked : allowed action)
      (later : ∀ reply, Confined allowed (next reply)) : Confined allowed (.act action next)

namespace Confined
variable {allowed : Action → Prop}

theorem pure (value : α) : Confined allowed (Pure.pure value : Job α) :=
  .done value

theorem ask {action : Action} (asked : allowed action) : Confined allowed (Job.ask action) :=
  .act asked fun reply => .done reply

theorem bind {job : Job α} {next : α → Job β} (first : Confined allowed job)
    (later : ∀ value, Confined allowed (next value)) : Confined allowed (job >>= next) := by
  induction first with
  | done value => exact later value
  | act asked _ ih => exact .act asked ih

theorem weaken {more : Action → Prop} {job : Job α} (confined : Confined allowed job)
    (implies : ∀ action, allowed action → more action) : Confined more job := by
  induction confined with
  | done value => exact .done value
  | act asked _ ih => exact .act (implies _ asked) ih

theorem attempt_pure (value : α) : Confined allowed (Pure.pure value : ExceptT ε Job α).run :=
  .done _

theorem attempt_bind {attempt : ExceptT ε Job α} {next : α → ExceptT ε Job β} (first : Confined allowed attempt.run)
    (later : ∀ value, Confined allowed (next value).run) : Confined allowed (attempt >>= next).run := by
  rw [ExceptT.run_bind]
  apply first.bind
  intro result
  cases result with
  | ok value => exact later value
  | error fault => exact .done _

theorem fail (fault : Fault) : Confined allowed (Attempt.fail fault : Attempt α).run :=
  .done _

theorem ofJob {job : Job α} (confined : Confined allowed job) : Confined allowed (Attempt.ofJob job).run :=
  confined.bind fun _ => .done _

theorem ofDisk {job : Job (Except DiskFault α)} (confined : Confined allowed job) :
    Confined allowed (Attempt.ofDisk job).run :=
  confined.bind fun _ => .done _

theorem ofExcept (describe : ε → Fault) (result : Except ε α) :
    Confined allowed (Attempt.ofExcept describe result).run :=
  .done _

/-- What every allowed step keeps, the whole work keeps. -/
theorem keeps {job : Job α} {invariant : Machine → Prop} (confined : Confined allowed job)
    (step : ∀ action machine, allowed action → invariant machine → invariant (machine.perform action).2)
    {machine : Machine} (holds : invariant machine) : invariant (job.run machine).2 := by
  induction confined generalizing machine with
  | done value => exact holds
  | act asked _ ih => exact ih _ (step _ machine asked holds)

end Confined

/-- What is left satisfies an assertion besides what is known of the value. -/
theorem attempts_also {attempt : Attempt α} {machine : Machine} {good : α → Machine → Prop} {bad : Fault → Machine → Prop}
    {left : Machine → Prop} (known : Attempts attempt machine good bad) (holds : left (attempt.run.run machine).2) :
    Attempts attempt machine (fun value after => good value after ∧ left after)
      (fun fault after => bad fault after ∧ left after) := by
  have told := known.holds
  constructor
  generalize attempt.run.run machine = ran at told holds
  obtain ⟨result, after⟩ := ran
  cases result <;> exact ⟨told, holds⟩

/-- Nothing but files is different, directories apart that were made where nothing was. -/
structure Frame (made files : List String → Prop) (before after : Disk) : Prop where
  same : ∀ place, ¬ files place → after.at? place = before.at? place ∨
    made place ∧ before.at? place = none ∧ after.at? place = some .directory
  firm : Firm before after

namespace Frame
variable {made files : List String → Prop}

@[refl] theorem refl (disk : Disk) : Frame made files disk disk :=
  ⟨fun _ _ => .inl rfl, fun _ there => there⟩

theorem trans {first second third : Disk} (one : Frame made files first second) (two : Frame made files second third) :
    Frame made files first third := by
  refine ⟨?_, fun place there => two.firm place (one.firm place there)⟩
  intro place outside
  rcases two.same place outside with kept | ⟨new, free, there⟩
  · rw [kept]
    exact one.same place outside
  · rcases one.same place outside with kept | ⟨-, -, there⟩
    · exact .inr ⟨new, kept.symm.trans free, there⟩
    · cases there.symm.trans free

theorem weaken {fewer some_files : List String → Prop} {before after : Disk} (frame : Frame fewer some_files before after)
    (made_of : ∀ place, fewer place → made place) (files_of : ∀ place, some_files place → files place) :
    Frame made files before after := by
  refine ⟨?_, frame.firm⟩
  intro place outside
  rcases frame.same place (fun inside => outside (files_of place inside)) with kept | ⟨new, free, there⟩
  · exact .inl kept
  · exact .inr ⟨made_of place new, free, there⟩

theorem kept {before after : Disk} (frame : Frame made files before after) {place : List String} {entry : Entry}
    (outside : ¬ files place) (there : before.at? place = some entry) : after.at? place = some entry := by
  rcases frame.same place outside with same | ⟨-, free, -⟩
  · exact same.trans there
  · cases free.symm.trans there

theorem read {before after : Disk} (frame : Frame made files before after) {path : String} {content : ByteArray}
    (outside : ¬ files (placeOf path)) (read : before.read path = .ok content) : after.read path = .ok content := by
  obtain ⟨place, found, there⟩ := read_ok read
  obtain rfl := locate_placeOf found
  exact read_of_at (locate_firm frame.firm found) (frame.kept outside there)

theorem put {disk : Disk} {place : List String} {content : ByteArray} (firm : Firm disk (disk.put place (.file content)))
    (inside : files place) : Frame made files disk (disk.put place (.file content)) := by
  refine ⟨?_, firm⟩
  intro other outside
  left
  apply at?_put_other
  rintro rfl
  exact outside inside

theorem write {before after : Disk} {path : String} {content : ByteArray}
    (written : before.write path content = .ok after) (inside : files (placeOf path)) : Frame made files before after := by
  obtain ⟨place, found, file, rfl⟩ := write_ok written
  obtain rfl := locate_placeOf found
  exact put (firm_put_file content file) inside

theorem createNew {before after : Disk} {path : String} (created : before.createNew path = .ok after)
    (inside : files (placeOf path)) : Frame made files before after := by
  obtain ⟨place, found, free, rfl⟩ := createNew_ok created
  obtain rfl := locate_placeOf found
  exact put (extends_put _ free).firm inside

theorem append {before after : Disk} {path : String} {content : ByteArray}
    (appended : before.append path content = .ok after) (inside : files (placeOf path)) :
    Frame made files before after := by
  obtain ⟨place, old, found, there, rfl⟩ := append_ok appended
  obtain rfl := locate_placeOf found
  exact put (firm_put_file _ (by rw [there]; simp)) inside

theorem remove {before after : Disk} {path : String} (removed : before.remove path = .ok after)
    (inside : files (placeOf path)) : Frame made files before after := by
  obtain ⟨place, content, found, there, rfl⟩ := remove_ok removed
  obtain rfl := locate_placeOf found
  have apart : ∀ other, other ≠ placeOf path → (before.erase (placeOf path)).at? other = before.at? other :=
    fun other apart => at?_erase_other before apart
  constructor
  · intro other outside
    left
    apply apart
    rintro rfl
    exact outside inside
  · intro other directory
    rw [apart other]
    · exact directory
    · rintro rfl
      cases there.symm.trans directory

theorem makeDirectories (disk : Disk) {path : String} (made_of : ∀ place, Through path place → made place) :
    Frame made files disk (disk.makeDirectories path).1 := by
  refine ⟨?_, (extends_makeDirectories disk path).firm⟩
  intro place _
  rcases makeDirectories_at? disk path place with kept | ⟨through, free, there⟩
  · exact .inl kept
  · exact .inr ⟨made_of place through, free, there⟩

theorem change {machine : Machine} {result : Except DiskFault Disk}
    (frame : ∀ after, result = .ok after → Frame made files machine.disk after) :
    Frame made files machine.disk (machine.change result).2.disk := by
  cases result with
  | error fault => exact .refl _
  | ok after => exact frame after rfl

end Frame

/-- A step that makes directories and changes files only at some places. -/
def Within (made files : List String → Prop) : Action → Prop
  | .write path _ | .createNew path | .append path _ | .remove path => files (placeOf path)
  | .runProgram _ arguments _ => ∀ path, arguments.getLast? = some path → files (placeOf path)
  | .makeDirectories path => ∀ place, Through path place → made place
  | .makeWorkspace _ | .removeTree _ => False
  | .findProgram _ | .read _ | .isThere _ | .size _ | .now | .freshId => True

theorem runProgram_frame {made files : List String → Prop} (machine : Machine) (name : String) {arguments : List String}
    (inside : ∀ path, arguments.getLast? = some path → files (placeOf path)) :
    Frame made files machine.disk (machine.runProgram name arguments).2.disk := by
  rcases runProgram_writes machine name arguments with same | ⟨path, content, last, written⟩
  · rw [same]
  · exact .write written (inside path last)

theorem perform_frame {made files : List String → Prop} (machine : Machine) {action : Action}
    (within : Within made files action) : Frame made files machine.disk (machine.perform action).2.disk := by
  cases action with
  | findProgram | read | isThere | size | now | freshId => exact .refl _
  | makeWorkspace | removeTree => exact within.elim
  | makeDirectories path =>
    have frame : Frame made files machine.disk (machine.disk.makeDirectories path).1 := .makeDirectories _ within
    simp only [Machine.perform]
    split
    next same => rwa [same] at frame
    next same => rwa [same] at frame
  | write path content => exact .change fun _ written => .write written within
  | createNew path => exact .change fun _ created => .createNew created within
  | append path content => exact .change fun _ appended => .append appended within
  | remove path => exact .change fun _ removed => .remove removed within
  | runProgram name arguments limit => exact runProgram_frame machine name within

theorem run_frame {made files : List String → Prop} {job : Job α} (confined : Confined (Within made files) job)
    (machine : Machine) : Frame made files machine.disk (job.run machine).2.disk := by
  have step : ∀ action (middle : Machine), Within made files action → Frame made files machine.disk middle.disk →
      Frame made files machine.disk (middle.perform action).2.disk :=
    fun action middle within frame => frame.trans (perform_frame middle within)
  exact confined.keeps step (Frame.refl machine.disk)

/-- A step by which nothing is lost. -/
def Builds : Action → Prop
  | .remove _ | .removeTree _ => False
  | _ => True

def Stays (before after : Disk) : Prop :=
  ∀ place, after.at? place = none → before.at? place = none

theorem Stays.trans {first second third : Disk} (one : Stays first second) (two : Stays second third) :
    Stays first third :=
  fun place free => one place (two place free)

theorem stays_put (disk : Disk) (place : List String) (entry : Entry) : Stays disk (disk.put place entry) := by
  intro other free
  by_cases same : other = place
  · subst same
    by_cases root : other = []
    · subst root
      cases free
    · rw [at?_put_same disk entry root] at free
      cases free
  · rwa [at?_put_other disk entry same] at free

theorem stays_of_extends {before after : Disk} (extended : Extends before after) : Stays before after := by
  intro place free
  cases there : before.at? place with
  | none => rfl
  | some entry => cases free.symm.trans (extended place entry there)

theorem stays_change {machine : Machine} {result : Except DiskFault Disk}
    (stays : ∀ after, result = .ok after → Stays machine.disk after) :
    Stays machine.disk (machine.change result).2.disk := by
  cases result with
  | error fault => exact fun _ free => free
  | ok after => exact stays after rfl

private theorem stays_write {disk after : Disk} {path : String} {content : ByteArray}
    (written : disk.write path content = .ok after) : Stays disk after := by
  obtain ⟨place, -, -, rfl⟩ := write_ok written
  exact stays_put disk place _

theorem perform_stays (machine : Machine) {action : Action} (builds : Builds action) :
    Stays machine.disk (machine.perform action).2.disk := by
  cases action with
  | findProgram | read | isThere | size | now | freshId => exact fun _ free => free
  | remove | removeTree => exact builds.elim
  | makeDirectories path =>
    have stays := stays_of_extends (extends_makeDirectories machine.disk path)
    simp only [Machine.perform]
    split
    next same => rwa [same] at stays
    next same => rwa [same] at stays
  | makeWorkspace parent =>
    simp only [Machine.perform, Machine.makeWorkspace]
    split
    · exact fun _ free => free
    · exact stays_put _ _ _
  | write path content => exact stays_change fun _ written => stays_write written
  | createNew path =>
    apply stays_change
    intro after created
    obtain ⟨place, -, -, rfl⟩ := createNew_ok created
    exact stays_put _ _ _
  | append path content =>
    apply stays_change
    intro after appended
    obtain ⟨place, old, -, -, rfl⟩ := append_ok appended
    exact stays_put _ _ _
  | runProgram name arguments limit =>
    rcases runProgram_writes machine name arguments with same | ⟨path, content, -, written⟩
    · simp only [Machine.perform, same]
      exact fun _ free => free
    · exact stays_write written

theorem run_stays {job : Job α} (confined : Confined Builds job) (machine : Machine) :
    Stays machine.disk (job.run machine).2.disk := by
  have step : ∀ action (middle : Machine), Builds action → Stays machine.disk middle.disk →
      Stays machine.disk (middle.perform action).2.disk :=
    fun action middle builds stays => stays.trans (perform_stays middle builds)
  exact confined.keeps step fun _ free => free

theorem makeDirectories_grown {files : List String → Prop} (machine : Machine) (path : String) :
    Ensures (Job.ask (.makeDirectories path)) machine fun _ after =>
      Frame (Through path) files machine.disk after.disk ∧ Stays machine.disk after.disk := by
  have within : Within (Through path) files (.makeDirectories path) := fun _ through => through
  have builds : Builds (.makeDirectories path) := trivial
  exact ⟨run_frame (.ask within) machine, run_stays (.ask builds) machine⟩

end Montage.Proofs.JobFrame
