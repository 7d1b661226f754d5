import Montage.Proofs.JobFrame
import Montage.Render.Run

/-! Making room for the output and the log of a render. What is on the disk before the engine is started
stays there as it is: directories are made where there are none, and files where there is nothing. -/

namespace Montage.Proofs.RenderOutput
open Montage.Render JobLogic DiskFrame DiskPlaces JobFrame

/-- Nothing was started, and the disk has all that it had. -/
structure Grows (before after : Machine) : Prop extends Idle before after where
  disk : Extends before.disk after.disk

namespace Grows

@[refl] theorem refl (machine : Machine) : Grows machine machine :=
  ⟨.refl machine, .refl machine.disk⟩

theorem trans {first second third : Machine} (one : Grows first second) (two : Grows second third) :
    Grows first third :=
  ⟨one.toIdle.trans two.toIdle, one.disk.trans two.disk⟩

end Grows

variable {machine : Machine}

theorem makeDirectories_ensures (path : String) :
    Ensures (Job.ask (.makeDirectories path)) machine fun _ after => Grows machine after := by
  apply Ensures.ask
  have grown := extends_makeDirectories machine.disk path
  simp only [Machine.perform]
  split
  next disk made =>
    rw [made] at grown
    exact ⟨⟨rfl, rfl⟩, grown⟩
  next disk fault made =>
    rw [made] at grown
    exact ⟨⟨rfl, rfl⟩, grown⟩

/-- A file was created: its name is one of the candidates, at its place was nothing, and nothing else is
different. -/
structure Created (directory : String) (candidates : List String) (path : String) (content : ByteArray)
    (before after : Machine) : Prop where
  candidate : ∃ name ∈ candidates, path = Path.join directory name
  found : before.disk.locate path = .ok (placeOf path)
  free : before.disk.at? (placeOf path) = none
  left : after = { before with disk := before.disk.put (placeOf path) (.file content) }

namespace Created
variable {directory path : String} {candidates : List String} {content : ByteArray} {before after : Machine}

theorem inside (created : Created directory candidates path content before after) : placeOf path ≠ [] :=
  inside_of_not_directory (by rw [created.free]; simp)

theorem extends_disk (created : Created directory candidates path content before after) :
    Extends before.disk after.disk := by
  rw [created.left]
  exact extends_put _ created.free

theorem located (created : Created directory candidates path content before after) :
    after.disk.locate path = .ok (placeOf path) :=
  locate_firm created.extends_disk.firm created.found

theorem there (created : Created directory candidates path content before after) :
    after.disk.at? (placeOf path) = some (.file content) := by
  rw [created.left]
  exact at?_put_same before.disk _ created.inside

theorem grown (created : Created directory candidates path content before after) : Grows before after := by
  refine ⟨⟨?_, ?_⟩, created.extends_disk⟩
  · rw [created.left]
  · rw [created.left]

theorem frame {made files : List String → Prop} (created : Created directory candidates path content before after)
    (within : files (placeOf path)) : Frame made files before.disk after.disk := by
  rw [created.left]
  exact .put (extends_put _ created.free).firm within

end Created

private theorem reserveFirst_creates (directory name : String) (candidates : List String) :
    Ensures (Audit.reserveFirst directory name candidates) machine fun
      | .ok path, after => Created directory candidates path .empty machine after
      | .error _, after => after = machine := by
  induction candidates with
  | nil => exact Ensures.pure rfl
  | cons candidate rest ih =>
    apply Ensures.bind (Ensures.asked _)
    rintro reply after ⟨rfl, rfl⟩
    simp only [Machine.perform]
    cases tried : machine.disk.createNew (Path.join directory candidate) with
    | ok disk =>
      obtain ⟨place, found, free, rfl⟩ := createNew_ok tried
      obtain rfl := locate_placeOf found
      exact Ensures.pure ⟨⟨candidate, by simp, rfl⟩, found, free, rfl⟩
    | error fault =>
      cases fault with
      | alreadyExists =>
        apply ih.weaken
        intro result after holds
        cases result with
        | ok path =>
          obtain ⟨⟨other, member, same⟩, found, free, left⟩ := holds
          exact ⟨⟨other, List.mem_cons_of_mem _ member, same⟩, found, free, left⟩
        | error fault => exact holds
      | _ => exact Ensures.pure rfl

private theorem put_put (disk : Disk) (place : List String) (first second : Entry) :
    (disk.put place first).put place second = disk.put place second := by
  simp [Disk.put, List.filter_filter]

/-- A log that was created holds its header, and without one nothing is different. -/
theorem create_creates (directory project output commandLine : String) (instant : Instant) :
    Ensures (Audit.create directory project output commandLine instant) machine fun
      | .ok path, after => Created directory (Audit.candidates (Audit.fileName instant)) path
          (Audit.header project output commandLine instant).toUTF8 machine after
      | .error _, after => after = machine := by
  apply Ensures.bind (reserveFirst_creates directory _ _)
  intro result middle holds
  cases result with
  | error fault => exact Ensures.pure holds
  | ok path =>
    have appended : middle.disk.append path (Audit.header project output commandLine instant).toUTF8 =
        .ok (middle.disk.put (placeOf path) (.file (Audit.header project output commandLine instant).toUTF8)) := by
      simp [Disk.append, holds.located, holds.there]
    apply Ensures.bind (Ensures.asked _)
    rintro reply after ⟨rfl, rfl⟩
    simp only [Machine.perform, Machine.change, appended]
    refine Ensures.pure ⟨holds.candidate, holds.found, holds.free, ?_⟩
    rw [holds.left, put_put]

theorem outputPath_creates (directory project : String) (requested : Option String) (instant : Instant) :
    Attempts (outputPath directory project requested instant) machine
      (fun path after =>
        (∃ name, requestedName requested = some name ∧ path = Path.join directory name ∧ after = machine) ∨
          requestedName requested = none ∧
            Created directory (Audit.candidates (defaultName project instant)) path .empty machine after)
      (fun _ after => after = machine) := by
  unfold outputPath
  cases named : requestedName requested with
  | some name => exact Attempts.pure (.inl ⟨name, rfl, rfl, rfl⟩)
  | none =>
    apply Attempts.ofDisk
    apply (reserveFirst_creates directory _ _).weaken
    intro result after holds
    cases result with
    | ok path => exact .inr ⟨rfl, holds⟩
    | error fault => exact holds

/-- The path of an output: the name that was asked for, or one of those tried for a default name. -/
def IsOutput (directory project : String) (requested : Option String) (path : String) : Prop :=
  match requestedName requested with
  | some name => path = Path.join directory name
  | none => ∃ instant, ∃ name ∈ Audit.candidates (defaultName project instant), path = Path.join directory name

theorem outputPath_attempts (directory project : String) (requested : Option String) (instant : Instant) :
    Attempts (outputPath directory project requested instant) machine
      (fun path after => Grows machine after ∧ IsOutput directory project requested path)
      (fun _ after => Grows machine after) := by
  apply (outputPath_creates directory project requested instant).weaken
  · rintro path after (⟨name, named, rfl, rfl⟩ | ⟨named, created⟩)
    · refine ⟨.refl _, ?_⟩
      rw [IsOutput, named]
    · refine ⟨created.grown, ?_⟩
      rw [IsOutput, named]
      exact ⟨instant, created.candidate⟩
  · rintro fault after rfl
    exact .refl _

/-- Creating a log changes nothing that was there. -/
theorem create_ensures (directory project output commandLine : String) (instant : Instant) :
    Ensures (Audit.create directory project output commandLine instant) machine fun _ after => Grows machine after := by
  apply (create_creates directory project output commandLine instant).weaken
  intro result after holds
  cases result with
  | ok path => exact holds.grown
  | error fault =>
    obtain rfl := holds
    exact .refl _

end Montage.Proofs.RenderOutput
