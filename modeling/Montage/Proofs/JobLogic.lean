import Montage.Render.Fault

/-! Assertions about jobs that run on a machine. What is asserted speaks of the value and of the machine
that are left; a fault of an attempt has an assertion of its own, since work goes on after it. -/

namespace Montage.Proofs.JobLogic
open Montage.Render

/-- What a job leaves satisfies an assertion. -/
structure Ensures (job : Job α) (machine : Machine) (post : α → Machine → Prop) : Prop where
  holds : post (job.run machine).1 (job.run machine).2

theorem run_bind (job : Job α) (next : α → Job β) (machine : Machine) :
    (job.bind next).run machine = (next (job.run machine).1).run (job.run machine).2 := by
  induction job generalizing machine with
  | done value => rfl
  | act action rest ih => exact ih _ _

theorem run_attempt_bind (attempt : ExceptT ε Job α) (next : α → ExceptT ε Job β) (machine : Machine) :
    (attempt >>= next).run.run machine = match attempt.run.run machine with
      | (.ok value, after) => (next value).run.run after
      | (.error fault, after) => (.error fault, after) := by
  rw [ExceptT.run_bind]
  refine (run_bind attempt.run _ machine).trans ?_
  obtain ⟨result, after⟩ := attempt.run.run machine
  cases result <;> rfl

/-- An attempt succeeds if and only if each of its steps does. -/
theorem bind_ok_iff {attempt : ExceptT ε Job α} {next : α → ExceptT ε Job β} {machine after : Machine} {result : β} :
    (attempt >>= next).run.run machine = (.ok result, after) ↔
      ∃ value middle, attempt.run.run machine = (.ok value, middle) ∧ (next value).run.run middle = (.ok result, after) := by
  rw [run_attempt_bind]
  constructor
  · intro succeeded
    generalize attempt.run.run machine = first at succeeded
    obtain ⟨value | value, middle⟩ := first
    · cases succeeded
    · exact ⟨value, middle, rfl, succeeded⟩
  · rintro ⟨value, middle, first, succeeded⟩
    rw [first]
    exact succeeded

/-- An attempt fails if and only if one of its steps does. -/
theorem bind_error_iff {attempt : ExceptT ε Job α} {next : α → ExceptT ε Job β} {machine after : Machine} {fault : ε} :
    (attempt >>= next).run.run machine = (.error fault, after) ↔ attempt.run.run machine = (.error fault, after) ∨
      ∃ value middle, attempt.run.run machine = (.ok value, middle) ∧
        (next value).run.run middle = (.error fault, after) := by
  rw [run_attempt_bind]
  generalize attempt.run.run machine = first
  obtain ⟨value | value, middle⟩ := first
  · simp
  · constructor
    · exact fun failed => .inr ⟨value, middle, rfl, failed⟩
    · rintro (failed | ⟨_, _, first, failed⟩)
      · cases failed
      · cases first
        exact failed

theorem fail_iff {machine after : Machine} {fault : Fault} {result : Except Fault α} :
    (Attempt.fail fault : Attempt α).run.run machine = (result, after) ↔ .error fault = result ∧ machine = after := by
  have given : (Attempt.fail fault : Attempt α).run.run machine = (.error fault, machine) := rfl
  rw [given, Prod.mk.injEq]

theorem pure_ok_iff {machine after : Machine} {value result : α} :
    (Pure.pure value : ExceptT ε Job α).run.run machine = (.ok result, after) ↔ value = result ∧ machine = after := by
  have done : (Pure.pure value : ExceptT ε Job α).run.run machine = (.ok value, machine) := rfl
  rw [done]
  simp

theorem ofJob_ok_iff {job : Job α} {machine after : Machine} {value : α} :
    (Attempt.ofJob job).run.run machine = (.ok value, after) ↔ job.run machine = (value, after) := by
  have lifted : (Attempt.ofJob job).run.run machine = (.ok (job.run machine).1, (job.run machine).2) :=
    run_bind job _ machine
  simp [lifted, Prod.ext_iff]

theorem mapError_ok_iff {describe : ε → φ} {result : Except ε α} {value : α} :
    result.mapError describe = .ok value ↔ result = .ok value := by
  cases result with
  | error fault => exact iff_of_false (fun failed => by cases failed) (fun failed => by cases failed)
  | ok given => constructor <;> rintro ⟨⟩ <;> rfl

theorem ofDisk_ok_iff {job : Job (Except DiskFault α)} {machine after : Machine} {value : α} :
    (Attempt.ofDisk job).run.run machine = (.ok value, after) ↔ job.run machine = (.ok value, after) := by
  have lifted : (Attempt.ofDisk job).run.run machine = ((job.run machine).1.mapError .disk, (job.run machine).2) :=
    run_bind job _ machine
  rw [lifted, Prod.mk.injEq, mapError_ok_iff, Prod.ext_iff]

theorem ofExcept_ok_iff {describe : ε → Fault} {result : Except ε α} {machine after : Machine} {value : α} :
    (Attempt.ofExcept describe result).run.run machine = (.ok value, after) ↔ result = .ok value ∧ machine = after := by
  have given : (Attempt.ofExcept describe result).run.run machine = (result.mapError describe, machine) := rfl
  rw [given, Prod.mk.injEq, mapError_ok_iff]

namespace Ensures

variable {machine : Machine}

theorem pure {value : α} {post : α → Machine → Prop} (holds : post value machine) :
    Ensures (Pure.pure value) machine post :=
  ⟨holds⟩

theorem ask {action : Action} {post : action.Reply → Machine → Prop}
    (holds : post (machine.perform action).1 (machine.perform action).2) :
    Ensures (Job.ask action) machine post :=
  ⟨holds⟩

theorem asked (action : Action) : Ensures (Job.ask action) machine fun reply after =>
    reply = (machine.perform action).1 ∧ after = (machine.perform action).2 :=
  ⟨⟨rfl, rfl⟩⟩

theorem bind {job : Job α} {next : α → Job β} {middle : α → Machine → Prop} {post : β → Machine → Prop}
    (first : Ensures job machine middle)
    (later : ∀ value after, middle value after → Ensures (next value) after post) :
    Ensures (job >>= next) machine post := by
  have whole : (job >>= next).run machine = (next (job.run machine).1).run (job.run machine).2 :=
    run_bind job next machine
  constructor
  rw [whole]
  exact (later _ _ first.holds).holds

theorem weaken {job : Job α} {post other : α → Machine → Prop} (first : Ensures job machine post)
    (implies : ∀ value after, post value after → other value after) : Ensures job machine other :=
  ⟨implies _ _ first.holds⟩

end Ensures

/-- What an attempt leaves satisfies one assertion if it succeeds and another if it does not. -/
def Attempts (attempt : Attempt α) (machine : Machine) (good : α → Machine → Prop)
    (bad : Fault → Machine → Prop) : Prop :=
  Ensures attempt.run machine fun
    | .ok value, after => good value after
    | .error fault, after => bad fault after

namespace Attempts

variable {machine : Machine} {bad : Fault → Machine → Prop}

theorem pure {value : α} {good : α → Machine → Prop} (holds : good value machine) :
    Attempts (Pure.pure value) machine good bad :=
  ⟨holds⟩

theorem fail {fault : Fault} {good : α → Machine → Prop} (holds : bad fault machine) :
    Attempts (Attempt.fail fault) machine good bad :=
  ⟨holds⟩

theorem bind {attempt : Attempt α} {next : α → Attempt β} {middle : α → Machine → Prop}
    {good : β → Machine → Prop} (first : Attempts attempt machine middle bad)
    (later : ∀ value after, middle value after → Attempts (next value) after good bad) :
    Attempts (attempt >>= next) machine good bad := by
  rw [Attempts, ExceptT.run_bind]
  apply Ensures.bind first
  intro result after holds
  cases result with
  | ok value => exact later value after holds
  | error fault => exact Ensures.pure holds

theorem weaken {attempt : Attempt α} {good better : α → Machine → Prop} {worse : Fault → Machine → Prop}
    (first : Attempts attempt machine better worse) (good_of : ∀ value after, better value after → good value after)
    (bad_of : ∀ fault after, worse fault after → bad fault after) : Attempts attempt machine good bad := by
  apply Ensures.weaken first
  intro result after holds
  cases result with
  | ok value => exact good_of value after holds
  | error fault => exact bad_of fault after holds

theorem always {attempt : Attempt α} {always : Machine → Prop}
    (first : Attempts attempt machine (fun _ after => always after) fun _ after => always after) :
    Ensures attempt.run machine fun _ after => always after := by
  apply Ensures.weaken first
  intro result after holds
  cases result <;> exact holds

theorem ofJob {job : Job α} {good : α → Machine → Prop} (first : Ensures job machine good) :
    Attempts (Attempt.ofJob job) machine good bad := by
  have lifted : (Attempt.ofJob job).run = job >>= fun value => Pure.pure (Except.ok value) := rfl
  rw [Attempts, lifted]
  exact first.bind fun value after holds => Ensures.pure holds

theorem ofDisk {job : Job (Except DiskFault α)} {good : α → Machine → Prop}
    (first : Ensures job machine fun
      | .ok value, after => good value after
      | .error fault, after => bad (.disk fault) after) :
    Attempts (Attempt.ofDisk job) machine good bad := by
  have lifted : (Attempt.ofDisk job).run = job >>= fun result => Pure.pure (result.mapError .disk) := rfl
  rw [Attempts, lifted]
  apply first.bind
  intro result after holds
  cases result with
  | ok value => exact Ensures.pure holds
  | error fault => exact Ensures.pure holds

theorem ofDisk_always {job : Job (Except DiskFault α)} {always : Machine → Prop}
    (first : Ensures job machine fun _ after => always after) :
    Attempts (Attempt.ofDisk job) machine (fun _ after => always after) (fun _ after => always after) := by
  apply ofDisk
  apply first.weaken
  intro result after holds
  cases result <;> exact holds

theorem ofExcept (describe : ε → Fault) (result : Except ε α) (failure : ∀ fault, bad fault machine) :
    Attempts (Attempt.ofExcept describe result) machine
      (fun value after => result = .ok value ∧ after = machine) bad := by
  cases result with
  | ok value => exact ⟨⟨rfl, rfl⟩⟩
  | error fault => exact ⟨failure _⟩

end Attempts

/-- Nothing was started, and the same programs are there. -/
structure Idle (before after : Machine) : Prop where
  launches : after.launches = before.launches
  programs : after.programs = before.programs

namespace Idle

@[refl] theorem refl (machine : Machine) : Idle machine machine :=
  ⟨rfl, rfl⟩

theorem trans {first second third : Machine} (one : Idle first second) (two : Idle second third) :
    Idle first third :=
  ⟨two.launches.trans one.launches, two.programs.trans one.programs⟩

theorem change (machine : Machine) (result : Except DiskFault Disk) : Idle machine (machine.change result).2 := by
  cases result <;> exact ⟨rfl, rfl⟩

end Idle

/-- What was started in between satisfies an assertion. -/
structure Starts (good : Launch → Prop) (before after : Machine) : Prop where
  launches : ∃ more, after.launches = before.launches ++ more ∧ ∀ launch ∈ more, good launch
  programs : after.programs = before.programs

namespace Starts

variable {good : Launch → Prop}

theorem of_idle {before after : Machine} (idle : Idle before after) : Starts good before after :=
  ⟨⟨[], by simp [idle.launches]⟩, idle.programs⟩

@[refl] theorem refl (machine : Machine) : Starts good machine machine :=
  of_idle (.refl machine)

theorem weaken {better : Launch → Prop} {before after : Machine} (starts : Starts better before after)
    (implies : ∀ launch, better launch → good launch) : Starts good before after := by
  obtain ⟨⟨more, launches, known⟩, programs⟩ := starts
  exact ⟨⟨more, launches, fun launch member => implies launch (known launch member)⟩, programs⟩

theorem trans {first second third : Machine} (one : Starts good first second) (two : Starts good second third) :
    Starts good first third := by
  obtain ⟨⟨early, first_part, early_good⟩, kept⟩ := one
  obtain ⟨⟨late, second_part, late_good⟩, still⟩ := two
  refine ⟨⟨early ++ late, by rw [second_part, first_part, List.append_assoc], ?_⟩, still.trans kept⟩
  intro launch member
  rcases List.mem_append.mp member with before | after
  · exact early_good launch before
  · exact late_good launch after

end Starts

end Montage.Proofs.JobLogic
