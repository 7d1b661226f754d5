import Montage.Proofs.StoreReads

/-! Work on a machine in trouble. Any step that uses the disk may fail there, for whatever reason, and has then
done nothing. Which steps fail is left open, so that what holds in trouble holds of every disk. -/

namespace Montage.Proofs.JobTrouble
open JobFrame StoreReads

/-- Which steps fail, and why. -/
abbrev Trouble := Action → Option DiskFault

/-- The reply by which a step fails; steps that do not use the disk have none. -/
def failure : (action : Action) → DiskFault → Option action.Reply
  | .makeWorkspace _, fault => some (.error fault)
  | .makeDirectories _, fault => some (.error fault)
  | .write _ _, fault => some (.error fault)
  | .createNew _, fault => some (.error fault)
  | .append _ _, fault => some (.error fault)
  | .read _, fault => some (.error fault)
  | .remove _, fault => some (.error fault)
  | .runProgram _ _ _, fault => some (.error fault)
  | .size _, _ => some none
  | .findProgram _, _ | .isThere _, _ | .removeTree _, _ | .now, _ | .freshId, _ => none

def performAmid (trouble : Trouble) (machine : Machine) (action : Action) : action.Reply × Machine :=
  match (trouble action).bind (failure action) with
  | some reply => (reply, machine)
  | none => machine.perform action

def runAmid (trouble : Trouble) : Job α → Machine → α × Machine
  | .done value, machine => (value, machine)
  | .act action next, machine =>
    runAmid trouble (next (performAmid trouble machine action).1) (performAmid trouble machine action).2

def reading (trouble : Trouble) (machine : Machine) (path : String) : Except DiskFault ByteArray :=
  (performAmid trouble machine (.read path)).1

variable {trouble : Trouble}

/-- Without trouble work runs as it always does. -/
theorem runAmid_calm (job : Job α) (machine : Machine) : runAmid (fun _ => none) job machine = job.run machine := by
  induction job generalizing machine with
  | done value => rfl
  | act action next ih => exact ih _ _

theorem runAmid_bind (job : Job α) (next : α → Job β) (machine : Machine) :
    runAmid trouble (job >>= next) machine =
      runAmid trouble (next (runAmid trouble job machine).1) (runAmid trouble job machine).2 := by
  induction job generalizing machine with
  | done value => rfl
  | act action rest ih => exact ih _ _

theorem runAmid_attempt_bind (attempt : ExceptT ε Job α) (next : α → ExceptT ε Job β) (machine : Machine) :
    runAmid trouble (attempt >>= next).run machine = match runAmid trouble attempt.run machine with
      | (.ok value, after) => runAmid trouble (next value).run after
      | (.error fault, after) => (.error fault, after) := by
  rw [ExceptT.run_bind, runAmid_bind]
  obtain ⟨result, after⟩ := runAmid trouble attempt.run machine
  cases result <;> rfl

theorem performAmid_reads {action : Action} (reads : Reads action) (machine : Machine) :
    (performAmid trouble machine action).2 = machine := by
  unfold performAmid
  split
  · rfl
  · exact perform_reads reads machine

theorem runAmid_reads {job : Job α} (confined : Confined Reads job) (machine : Machine) :
    (runAmid trouble job machine).2 = machine := by
  induction confined generalizing machine with
  | done value => rfl
  | @act action next asked later ih =>
    have kept : (performAmid trouble machine action).2 = machine := performAmid_reads asked machine
    simp only [runAmid, kept]
    exact ih _ machine

end Montage.Proofs.JobTrouble
