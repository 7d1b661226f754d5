import Montage.Proofs.JobTrouble

/-! Work in which steps go wrong. Any step that uses the disk may fail, once or again and again, and what it was to
write or to make may then be there in part. Which mishaps are possible is said by the theory of the work. -/

namespace Montage.Proofs.JobMishaps
open Montage.Render JobFrame DiskPlaces JobTrouble

/-- What a step that fails may leave: everything as it was, a file with other content than it was to have, or only some
of the directories on a way. -/
inductive Leaves (machine : Machine) : Action → Machine → Prop where
  | untouched {action : Action} : Leaves machine action machine
  | torn {path : String} {content part : ByteArray} {disk : Disk} (written : machine.disk.write path part = .ok disk) :
      Leaves machine (.write path content) { machine with disk }
  | cut {path : String} {content part : ByteArray} {disk : Disk} (appended : machine.disk.append path part = .ok disk) :
      Leaves machine (.append path content) { machine with disk }
  | halfway {path : String} {front : List String} (before : front <+: Path.parts path) :
      Leaves machine (.makeDirectories path) { machine with disk := (machine.disk.makeWay [] front).1 }

/-- The mishaps that are possible: at which steps, and what they leave. -/
structure Mishaps where
  may : Machine → Action → Machine → Prop
  leaves : ∀ {machine left action}, may machine action left → Leaves machine action left

/-- Any step may fail, and leave whatever failing steps do, but one that is spared does not. -/
def Mishaps.sparing (spared : Machine → Action → Prop) : Mishaps where
  may machine action left := ¬ spared machine action ∧ Leaves machine action left
  leaves := And.right

/-- Every step may fail, and leave whatever failing steps do. -/
def Mishaps.any : Mishaps :=
  ⟨Leaves, id⟩

/-- Every step may fail, and one that fails does nothing. -/
def Mishaps.harmless : Mishaps where
  may machine _ left := left = machine
  leaves same := same ▸ .untouched

/-- What is written to a path may be there in part. -/
def Mishaps.Tears (mishaps : Mishaps) (path : String) : Prop :=
  ∃ machine content left, mishaps.may machine (.write path content) left ∧ left ≠ machine

theorem Mishaps.harmless_whole (path : String) : ¬ Mishaps.harmless.Tears path :=
  fun ⟨_, _, _, same, torn⟩ => torn same

/-- A course that work may take. Each step is done, or fails by a mishap. -/
inductive Fares (mishaps : Mishaps) : Job α → Machine → α → Machine → Prop where
  | done (value : α) (machine : Machine) : Fares mishaps (.done value) machine value machine
  | does {action : Action} {next : action.Reply → Job α} {machine after : Machine} {value : α}
      (later : Fares mishaps (next (machine.perform action).1) (machine.perform action).2 value after) :
      Fares mishaps (.act action next) machine value after
  | fails {action : Action} {next : action.Reply → Job α} {machine left after : Machine} {value : α}
      {fault : DiskFault} {reply : action.Reply} (may : mishaps.may machine action left)
      (told : failure action fault = some reply) (later : Fares mishaps (next reply) left value after) :
      Fares mishaps (.act action next) machine value after

variable {mishaps : Mishaps}

section Courses

theorem fares_run (job : Job α) (machine : Machine) :
    Fares mishaps job machine (job.run machine).1 (job.run machine).2 := by
  induction job generalizing machine with
  | done value => exact .done value machine
  | act action next ih => exact .does (ih _ _)

theorem fares_amid {trouble : Trouble}
    (may : ∀ machine action fault, trouble action = some fault → mishaps.may machine action machine)
    (job : Job α) (machine : Machine) :
    Fares mishaps job machine (runAmid trouble job machine).1 (runAmid trouble job machine).2 := by
  induction job generalizing machine with
  | done value => exact .done value machine
  | act action next ih =>
    have later := ih (performAmid trouble machine action).1 (performAmid trouble machine action).2
    rw [runAmid]
    generalize performed : performAmid trouble machine action = answer at later ⊢
    unfold performAmid at performed
    split at performed
    next reply failed =>
      obtain ⟨fault, met, told⟩ := Option.bind_eq_some_iff.mp failed
      cases performed
      exact .fails (may machine action fault met) told later
    next =>
      cases performed
      exact .does later

theorem Fares.bind {job : Job α} {next : α → Job β} {machine middle after : Machine} {value : α} {result : β}
    (first : Fares mishaps job machine value middle) (later : Fares mishaps (next value) middle result after) :
    Fares mishaps (job >>= next) machine result after := by
  induction first with
  | done => exact later
  | does _ ih => exact .does (ih later)
  | fails may told _ ih => exact .fails may told (ih later)

theorem Fares.attempt_bind {attempt : ExceptT ε Job α} {next : α → ExceptT ε Job β} {machine middle after : Machine}
    {value : α} {result : Except ε β} (first : Fares mishaps attempt.run machine (.ok value) middle)
    (later : Fares mishaps (next value).run middle result after) :
    Fares mishaps (attempt >>= next).run machine result after := by
  rw [ExceptT.run_bind]
  exact first.bind later

theorem Fares.attempt_bind_error {attempt : ExceptT ε Job α} {next : α → ExceptT ε Job β} {machine after : Machine}
    {fault : ε} (first : Fares mishaps attempt.run machine (.error fault) after) :
    Fares mishaps (attempt >>= next).run machine (.error fault) after := by
  rw [ExceptT.run_bind]
  exact first.bind (.done _ _)

end Courses

/-- However work fares, what it leaves satisfies an assertion. -/
structure Weathers (mishaps : Mishaps) (job : Job α) (machine : Machine) (post : α → Machine → Prop) :
    Prop where
  holds : ∀ {value after}, Fares mishaps job machine value after → post value after

namespace Weathers
variable {machine : Machine} {post : α → Machine → Prop}

theorem pure {value : α} (holds : post value machine) : Weathers mishaps (Pure.pure value) machine post := by
  constructor
  rintro _ _ ⟨⟩
  exact holds

theorem ask {action : Action} {post : action.Reply → Machine → Prop}
    (does : post (machine.perform action).1 (machine.perform action).2)
    (fails : ∀ fault reply left, mishaps.may machine action left → failure action fault = some reply →
      post reply left) : Weathers mishaps (Job.ask action) machine post := by
  constructor
  intro reply after fares
  cases fares with
  | does later =>
    cases later
    exact does
  | fails may told later =>
    cases later
    exact fails _ _ _ may told

theorem bind {job : Job α} {next : α → Job β} {middle : α → Machine → Prop} {post : β → Machine → Prop}
    (first : Weathers mishaps job machine middle)
    (later : ∀ value after, middle value after → Weathers mishaps (next value) after post) :
    Weathers mishaps (job >>= next) machine post := by
  constructor
  intro result after fares
  induction job generalizing machine with
  | done value => exact (later value machine (first.holds (.done value machine))).holds fares
  | act action rest ih =>
    cases fares with
    | does fares => exact ih _ ⟨fun begun => first.holds (.does begun)⟩ fares
    | fails may told fares => exact ih _ ⟨fun begun => first.holds (.fails may told begun)⟩ fares

theorem attempt_bind {attempt : ExceptT ε Job α} {next : α → ExceptT ε Job β} {middle : Except ε α → Machine → Prop}
    {post : Except ε β → Machine → Prop} (first : Weathers mishaps attempt.run machine middle)
    (good : ∀ value after, middle (.ok value) after → Weathers mishaps (next value).run after post)
    (bad : ∀ fault after, middle (.error fault) after → post (.error fault) after) :
    Weathers mishaps (attempt >>= next).run machine post := by
  rw [ExceptT.run_bind]
  apply first.bind
  rintro (fault | value) after holds
  · exact Weathers.pure (bad fault after holds)
  · exact good value after holds

theorem weaken {job : Job α} {better : α → Machine → Prop} (weathers : Weathers mishaps job machine better)
    (implies : ∀ value after, better value after → post value after) : Weathers mishaps job machine post :=
  ⟨fun fares => implies _ _ (weathers.holds fares)⟩

theorem both {job : Job α} {other : α → Machine → Prop} (one : Weathers mishaps job machine post)
    (two : Weathers mishaps job machine other) : Weathers mishaps job machine fun value after =>
      post value after ∧ other value after :=
  ⟨fun fares => ⟨one.holds fares, two.holds fares⟩⟩

theorem itself (mishaps : Mishaps) (job : Job α) (machine : Machine) :
    Weathers mishaps job machine (Fares mishaps job machine) :=
  ⟨id⟩

end Weathers

/-- However an attempt fares, what it leaves satisfies one assertion if it succeeds and another if it does not. -/
def Endures (mishaps : Mishaps) (attempt : Attempt α) (machine : Machine) (good : α → Machine → Prop)
    (bad : Fault → Machine → Prop) : Prop :=
  Weathers mishaps attempt.run machine fun
    | .ok value, after => good value after
    | .error fault, after => bad fault after

namespace Endures
variable {machine : Machine} {good : α → Machine → Prop} {bad : Fault → Machine → Prop}

theorem pure {value : α} (holds : good value machine) : Endures mishaps (Pure.pure value) machine good bad :=
  Weathers.pure holds

theorem bind {attempt : Attempt α} {next : α → Attempt β} {middle : α → Machine → Prop} {good : β → Machine → Prop}
    (first : Endures mishaps attempt machine middle bad)
    (later : ∀ value after, middle value after → Endures mishaps (next value) after good bad) :
    Endures mishaps (attempt >>= next) machine good bad := by
  exact Weathers.attempt_bind first later fun _ _ holds => holds

theorem ofJob {job : Job α} (weathers : Weathers mishaps job machine good) :
    Endures mishaps (Attempt.ofJob job) machine good bad :=
  weathers.bind fun _ _ holds => Weathers.pure holds

theorem ofDisk {job : Job (Except DiskFault α)} (weathers : Weathers mishaps job machine fun
      | .ok value, after => good value after
      | .error fault, after => bad (.disk fault) after) : Endures mishaps (Attempt.ofDisk job) machine good bad := by
  apply weathers.bind
  intro result after holds
  cases result <;> exact Weathers.pure holds

theorem ofDisk_always {job : Job (Except DiskFault α)} {always : Machine → Prop}
    (weathers : Weathers mishaps job machine fun _ after => always after) :
    Endures mishaps (Attempt.ofDisk job) machine (fun _ after => always after) (fun _ after => always after) := by
  apply ofDisk
  apply weathers.weaken
  intro result after holds
  cases result <;> exact holds

theorem ofExcept_ok (describe : ε → Fault) {result : Except ε α} {value : α} (succeeds : result = .ok value) :
    Endures mishaps (Attempt.ofExcept describe result) machine (fun given after => given = value ∧ after = machine)
      bad := by
  subst succeeds
  exact Weathers.pure ⟨rfl, rfl⟩

theorem weaken {attempt : Attempt α} {better : α → Machine → Prop} {worse : Fault → Machine → Prop}
    (endures : Endures mishaps attempt machine better worse)
    (good_of : ∀ value after, better value after → good value after)
    (bad_of : ∀ fault after, worse fault after → bad fault after) : Endures mishaps attempt machine good bad := by
  apply Weathers.weaken endures
  intro result after holds
  cases result with
  | ok value => exact good_of value after holds
  | error fault => exact bad_of fault after holds

theorem also {attempt : Attempt α} {other : Except Fault α → Machine → Prop}
    (endures : Endures mishaps attempt machine good bad)
    (weathers : Weathers mishaps attempt.run machine other) :
    Endures mishaps attempt machine (fun value after => good value after ∧ other (.ok value) after)
      (fun fault after => bad fault after ∧ other (.error fault) after) := by
  apply (Weathers.both endures weathers).weaken
  intro result after both
  cases result <;> exact both

end Endures

section Frames
variable {made files : List String → Prop}

theorem leaves_frame {machine left : Machine} {action : Action} (within : Within made files action)
    (leaves : Leaves machine action left) : Frame made files machine.disk left.disk := by
  cases leaves with
  | untouched => exact .refl _
  | torn written => exact .write written within
  | cut appended => exact .append appended within
  | @halfway path front before =>
    refine ⟨fun place _ => ?_, (DiskFrame.extends_makeWay machine.disk [] front).firm⟩
    obtain kept | ⟨free, there, way, ahead, ends⟩ := makeWay_at? machine.disk [] front place
    · exact .inl kept
    · exact .inr ⟨within place ⟨way, ahead.trans before, ends⟩, free, there⟩

theorem weathers_frame {job : Job α} (confined : Confined (Within made files) job) (machine : Machine) :
    Weathers mishaps job machine fun _ after => Frame made files machine.disk after.disk := by
  constructor
  intro value after fares
  induction fares with
  | done => exact .refl _
  | does _ ih =>
    obtain _ | ⟨asked, later⟩ := confined
    exact (perform_frame _ asked).trans (ih (later _))
  | fails may _ _ ih =>
    obtain _ | ⟨asked, later⟩ := confined
    exact (leaves_frame asked (mishaps.leaves may)).trans (ih (later _))

end Frames

end Montage.Proofs.JobMishaps
