import Montage.Proofs.JobLogic
import Montage.Render.Run

/-! The programs that a render starts. Looking for one starts nothing; a prober is asked about one file,
and what it leaves on the disk is its own. -/

namespace Montage.Proofs.RenderPrograms
open Montage.Render JobLogic

/-- A prober that is asked about a file changes no file. -/
def ReadsOnly (prober : String) (machine : Machine) : Prop :=
  ∀ program, machine.programs.lookup prober = some program →
    ∀ disk path, (program.behave disk (Probe.arguments path)).writes = none

theorem ReadsOnly.kept {prober : String} {before after : Machine} (reads_only : ReadsOnly prober before)
    (same : after.programs = before.programs) : ReadsOnly prober after := by
  intro program known
  rw [same] at known
  exact reads_only program known

/-- The prober was asked about a file. -/
def Asks (settings : Settings) (launch : Launch) : Prop :=
  launch.program = settings.prober ∧ ∃ path, launch.arguments = Probe.arguments path

variable {machine : Machine}

theorem runProgram_starts (machine : Machine) (name : String) (arguments : List String) :
    Starts (· = ⟨name, arguments, machine.disk⟩) machine (machine.runProgram name arguments).2 := by
  unfold Machine.runProgram
  split
  · exact .refl machine
  · split
    · exact .refl machine
    · split
      · exact .refl machine
      · exact ⟨⟨_, rfl, by simp⟩, rfl⟩

theorem runProgram_disk {name : String} {arguments : List String}
    (silent : ∀ program, machine.programs.lookup name = some program →
      (program.behave machine.disk arguments).writes = none) :
    (machine.runProgram name arguments).2.disk = machine.disk := by
  unfold Machine.runProgram
  split
  · rfl
  · split
    · rfl
    next program known =>
      split
      · rfl
      · simp [silent program known]

theorem run_programs (job : Job α) (machine : Machine) : (job.run machine).2.programs = machine.programs := by
  have step : ∀ (machine : Machine) (action : Action), (machine.perform action).2.programs = machine.programs := by
    intro machine action
    cases action with
    | runProgram name arguments limit => exact (runProgram_starts machine name arguments).programs
    | write | createNew | append | remove => exact (Idle.change machine _).programs
    | makeDirectories path =>
      simp only [Machine.perform]
      split <;> rfl
    | makeWorkspace parent =>
      simp only [Machine.perform, Machine.makeWorkspace]
      split <;> rfl
    | _ => rfl
  induction job generalizing machine with
  | done value => rfl
  | act action next ih => exact (ih _ _).trans (step machine action)

private theorem findProber_attempts (prober : String) :
    Attempts (findProber prober) machine (fun name after => name = prober ∧ after = machine)
      (fun _ after => after = machine) := by
  apply Attempts.bind (Attempts.ofJob (Ensures.asked _))
  rintro found after ⟨-, rfl⟩
  cases found with
  | true => exact Attempts.pure ⟨rfl, rfl⟩
  | false => exact Attempts.fail rfl

theorem findEngine_attempts (engine : String) :
    Attempts (findEngine engine) machine (fun _ after => after = machine) (fun _ after => after = machine) := by
  apply Attempts.bind (Attempts.ofJob (Ensures.asked _))
  rintro found after ⟨-, rfl⟩
  cases found with
  | true => exact Attempts.pure rfl
  | false => exact Attempts.fail rfl

private theorem media_ensures (settings : Settings) (path : String) :
    Ensures (Probe.media settings.prober path).run machine fun _ after =>
      Starts (Asks settings) machine after ∧ (ReadsOnly settings.prober machine → after.disk = machine.disk) := by
  apply Ensures.bind (Ensures.asked _)
  rintro there after ⟨-, rfl⟩
  cases there with
  | false => exact Ensures.pure ⟨.refl _, fun _ => rfl⟩
  | true =>
    apply Ensures.bind (Ensures.asked _)
    rintro result last ⟨-, rfl⟩
    obtain ⟨⟨more, launches, asked⟩, programs⟩ :=
      runProgram_starts after settings.prober (Probe.arguments path)
    refine Ensures.pure ⟨⟨⟨more, launches, ?_⟩, programs⟩, ?_⟩
    · intro launch member
      rw [asked launch member]
      exact ⟨rfl, path, rfl⟩
    · intro reads_only
      exact runProgram_disk fun program known => reads_only program known _ path

/-- Asking the prober starts nothing else, and what it leaves depends on what it writes. -/
theorem probe_ensures (settings : Settings) (path : String) :
    Ensures (probe settings path) machine fun _ after =>
      Starts (Asks settings) machine after ∧ (ReadsOnly settings.prober machine → after.disk = machine.disk) := by
  apply Ensures.bind (findProber_attempts settings.prober)
  intro result after holds
  cases result with
  | error fault =>
    obtain rfl := holds
    exact Ensures.pure ⟨.refl _, fun _ => rfl⟩
  | ok prober =>
    obtain ⟨rfl, rfl⟩ := holds
    apply Ensures.bind (media_ensures settings path)
    intro result last holds
    cases result <;> exact Ensures.pure holds

end Montage.Proofs.RenderPrograms
