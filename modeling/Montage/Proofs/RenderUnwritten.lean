import Montage.Proofs.RenderOutcome

/-! What comes of a render whose engine reports success and writes nothing. It fails for want of an output
when nothing was there before the engine was started, and otherwise what was there is taken for it. -/

namespace Montage.Proofs.RenderUnwritten
open Montage.Render DiskFrame DiskPlaces RenderCourse RenderLeavings RenderArrival RenderOutcome

/-- Two disks that differ in what files hold and in nothing else. -/
def Alike (one two : Disk) : Prop :=
  ∀ place, one.at? place = two.at? place ∨
    ∃ old new, one.at? place = some (.file old) ∧ two.at? place = some (.file new)

private theorem walk_alike {one two : Disk} (alike : Alike one two) (here parts : List String) :
    one.walk here parts = two.walk here parts := by
  induction parts generalizing here with
  | nil => rfl
  | cons part rest ih =>
    rcases alike here with same | ⟨old, new, first, second⟩
    · simp only [Disk.walk, same, ih]
    · simp only [Disk.walk, first, second]

private theorem locate_alike {one two : Disk} (alike : Alike one two) (path : String) :
    one.locate path = two.locate path := by
  simp only [Disk.locate, walk_alike alike]

private theorem alike_put {disk : Disk} {place : List String} {old : ByteArray}
    (there : disk.at? place = some (.file old))
    (new : ByteArray) : Alike disk (disk.put place (.file new)) := by
  have inside : place ≠ [] := inside_of_not_directory (by rw [there]; simp)
  intro other
  by_cases same : other = place
  · subst same
    exact .inr ⟨old, new, there, at?_put_same disk _ inside⟩
  · exact .inl (at?_put_other disk _ same).symm

variable {settings : Settings} {inputs : Inputs} {prepared : Prepared} {machine ready : Machine}

private theorem header_filled (project output line : String) (instant : Instant) :
    0 < (Audit.header project output line instant).toUTF8.size := by
  have rule : 0 < Audit.rule.utf8ByteSize := by decide
  change 0 < (Audit.header project output line instant).utf8ByteSize
  simp only [Audit.header, String.utf8ByteSize_append]
  omega

private theorem noted_filled (reached : Reaches settings inputs machine prepared ready)
    (unwritten : (startEngine settings prepared ready).2.disk = ready.disk) :
    Filled (noted settings prepared ready).disk prepared.command.output ↔
      Filled ready.disk prepared.command.output := by
  obtain ⟨_, _, readied⟩ := reaches_readied reached
  obtain ⟨instant, header⟩ := readied.header
  have filled := header_filled inputs.project prepared.command.output prepared.command.line instant
  generalize (Audit.header _ _ _ _).toUTF8 = head at header filled
  have written := noted_disk (by rw [unwritten]; exact readied.located) (by rw [unwritten]; exact header)
  rw [unwritten] at written
  generalize (entry settings _).toUTF8 = tail at written
  have inside : placeOf prepared.log ≠ [] := inside_of_not_directory (by rw [header]; simp)
  simp only [Filled, Disk.find, written, ← locate_alike (alike_put header (head ++ tail))]
  cases ready.disk.locate prepared.command.output with
  | error fault => simp
  | ok place =>
    by_cases same : place = placeOf prepared.log
    · subst same
      have longer : 0 < head.size + tail.size := Nat.add_pos_left filled _
      simp [at?_put_same ready.disk _ inside, header, filled, longer]
    · simp only [at?_put_other ready.disk _ same]

private theorem verdict_noOutput (exits : Ends settings prepared ready (.exited 0))
    (empty : ¬ Filled (noted settings prepared ready).disk prepared.command.output) :
    verdict settings prepared ready = .error .noOutput := by
  obtain ⟨finished, answered, ending⟩ := exits
  rw [filled_iff] at empty
  simp only [verdict, answered, judged, Outcome.ofFinished, ending, Ending.code, judgedOutcome]
  split
  next bytes size => exact absurd ⟨bytes + 1, size, Nat.succ_pos bytes⟩ empty
  next => rfl

private theorem reserved_unfilled (reached : Reaches settings inputs machine prepared ready)
    (unnamed : requestedName inputs.request.outputName = none) : ¬ Filled ready.disk prepared.command.output := by
  obtain ⟨_, _, readied⟩ := reaches_readied reached
  obtain ⟨found, there, -⟩ := readied.reserved unnamed
  simp [Filled, Disk.find, found, there]

/-- When the engine writes nothing, the render fails if and only if nothing with data lay at the path of the
output before; under a name that the render picked itself nothing ever does. -/
theorem unwritten_outcome (settings : Settings) (inputs : Inputs) (machine ready : Machine) (prepared : Prepared)
    (reached : Reaches settings inputs machine prepared ready) (exits : Ends settings prepared ready (.exited 0))
    (unwritten : (startEngine settings prepared ready).2.disk = ready.disk) :
    (((render settings inputs).run machine).1.state = .failed ∧
        ((render settings inputs).run machine).1.report.message = Fault.noOutput.message ↔
      ¬ Filled ready.disk prepared.command.output) ∧
    (((render settings inputs).run machine).1.state = .succeeded ↔ Filled ready.disk prepared.command.output) ∧
    (requestedName inputs.request.outputName = none → ¬ Filled ready.disk prepared.command.output) := by
  have filled := noted_filled reached unwritten
  have unnamed := reserved_unfilled reached
  have told := launch_told settings inputs prepared ready
  rw [render_reached reached]
  generalize ((launch settings inputs prepared).run ready).1 = result at told
  by_cases there : Filled ready.disk prepared.command.output
  · obtain ⟨bytes, delivered⟩ := verdict_ok_iff.mpr ⟨exits, filled.mpr there⟩
    rw [delivered] at told
    cases told
    exact ⟨by simp [there], by simp [there], unnamed⟩
  · rw [verdict_noOutput exits (fun full => there (filled.mp full))] at told
    cases told
    exact ⟨by simp [there], by simp [there], unnamed⟩

/-- A render that asks for the name of a film that is there already, of an engine that writes nothing. -/
theorem stale_film_taken : ∃ prepared ready,
    Reaches {} (plainInputs (some "film.mp4")) (idleMachine "film.mp4" (.file ⟨#[7]⟩)) prepared ready ∧
      Ends {} prepared ready (.exited 0) ∧ (startEngine {} prepared ready).2.disk = ready.disk ∧
      (((render {} (plainInputs (some "film.mp4"))).run (idleMachine "film.mp4" (.file ⟨#[7]⟩))).1.state = .succeeded ↔
        Filled ready.disk prepared.command.output) := by
  have succeeded : ((render {} (plainInputs (some "film.mp4"))).run
      (idleMachine "film.mp4" (.file ⟨#[7]⟩))).1.state = .succeeded := by
    decide +kernel
  obtain ⟨prepared, ready, reached, exits, -⟩ := (render_classified _ _ _).succeeded.mp succeeded
  have silent : ∀ program, ready.programs.lookup prepared.command.program = some program →
      (program.behave ready.disk prepared.command.allArguments).writes = none := by
    intro program known
    rw [reaches_programs reached, reaches_program reached] at known
    cases known
    rfl
  have unwritten := RenderPrograms.runProgram_disk silent
  have outcome := unwritten_outcome _ _ _ ready prepared reached exits unwritten
  exact ⟨prepared, ready, reached, exits, unwritten, outcome.2.1⟩

/-- A film that lies at the path of the output is delivered by a render whose engine wrote none. -/
theorem stale_film_delivered :
    ((render {} (plainInputs (some "film.mp4"))).run (idleMachine "film.mp4" (.file "old film".toUTF8))).1.state =
        .succeeded ∧
      ((render {} (plainInputs (some "film.mp4"))).run (idleMachine "film.mp4" (.file "old film".toUTF8))).2.disk.read
        "data/p/rendered/film.mp4" matches .ok ⟨#[111, 108, 100, 32, 102, 105, 108, 109]⟩ := by
  decide +kernel

end Montage.Proofs.RenderUnwritten
