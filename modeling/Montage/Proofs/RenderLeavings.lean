import Montage.Proofs.RenderCourse

/-! What a render leaves on the disk: directories on the ways to its outputs and to where it stages, at
most one output and at most one log. Whatever it staged is gone again, unless it is stuck. -/

namespace Montage.Proofs.RenderLeavings
open Montage.Filter Montage.Render JobLogic DiskFrame DiskPlaces DiskTree PathJoin JobFrame RenderOutput RenderSteps
  RenderWorkspace RenderCourse
open RenderLayout (assemble_ok)

variable {settings : Settings} {inputs : Inputs} {workspace : String} {machine : Machine}

/-- The path of the output that a render makes for a request. -/
abbrev Chosen (settings : Settings) (inputs : Inputs) (output : String) : Prop :=
  IsOutput (settings.outputDirectory inputs.project) inputs.project inputs.request.outputName output

private theorem chosen_some (settings : Settings) (inputs : Inputs) : ∃ output, Chosen settings inputs output := by
  unfold Chosen IsOutput
  cases requestedName inputs.request.outputName with
  | some name => exact ⟨_, rfl⟩
  | none => exact ⟨_, ⟨0, 0⟩, _, List.mem_cons_self, rfl⟩

/-- The files that are different while a render is on its way to the engine. -/
def Staging (workspace : String) (output : String) (place : List String) : Prop :=
  placeOf workspace <+: place ∨ place = placeOf output

structure Arranges (settings : Settings) (inputs : Inputs) (workspace : String) (arranged : Arranged)
    (before after : Machine) : Prop where
  output : arranged.command.output = arranged.output
  chosen : Chosen settings inputs arranged.output
  frame : Frame (Through (settings.outputDirectory inputs.project)) (Staging workspace arranged.output)
    before.disk after.disk
  stays : Stays before.disk after.disk
  reserved : requestedName inputs.request.outputName = none →
    after.disk.locate arranged.output = .ok (placeOf arranged.output) ∧
      after.disk.at? (placeOf arranged.output) = some (.file .empty)
  requested : requestedName inputs.request.outputName ≠ none →
    Frame (Through (settings.outputDirectory inputs.project)) (placeOf workspace <+: ·) before.disk after.disk

/-- Nothing is lost, and nothing but what is staged is different, directories on the way to the output apart. -/
structure Early (settings : Settings) (inputs : Inputs) (workspace : String) (before after : Machine) : Prop where
  frame : Frame (Through (settings.outputDirectory inputs.project)) (placeOf workspace <+: ·) before.disk after.disk
  stays : Stays before.disk after.disk

/-- An output has the name that was asked for, or it was created under one of the names for an instant. -/
def Picks (settings : Settings) (inputs : Inputs) (instant : Instant) (output : String) (before after : Machine) : Prop :=
  (∃ name, requestedName inputs.request.outputName = some name ∧
    output = Path.join (settings.outputDirectory inputs.project) name ∧ after = before) ∨
  requestedName inputs.request.outputName = none ∧
    Created (settings.outputDirectory inputs.project) (Audit.candidates (defaultName inputs.project instant)) output .empty
      before after

theorem Picks.chosen {instant : Instant} {output : String} {before after : Machine}
    (picks : Picks settings inputs instant output before after) : Chosen settings inputs output := by
  unfold Chosen IsOutput
  rcases picks with ⟨name, named, path, -⟩ | ⟨unnamed, created⟩
  · rw [named]
    exact path
  · rw [unnamed]
    exact ⟨instant, created.candidate⟩

namespace Early
variable {before middle after : Machine} {instant : Instant} {output : String}

theorem trans (one : Early settings inputs workspace before middle) (two : Early settings inputs workspace middle after) :
    Early settings inputs workspace before after :=
  ⟨one.frame.trans two.frame, one.stays.trans two.stays⟩

theorem staging (early : Early settings inputs workspace before after) (output : String) :
    Frame (Through (settings.outputDirectory inputs.project)) (Staging workspace output) before.disk after.disk :=
  early.frame.weaken (fun _ way => way) fun _ below => .inl below

theorem stopped (early : Early settings inputs workspace before after) : ∃ output, Chosen settings inputs output ∧
    Frame (Through (settings.outputDirectory inputs.project)) (Staging workspace output) before.disk after.disk := by
  obtain ⟨output, chosen⟩ := chosen_some settings inputs
  exact ⟨output, chosen, early.staging output⟩

theorem picked (early : Early settings inputs workspace before middle)
    (picks : Picks settings inputs instant output middle after) :
    Frame (Through (settings.outputDirectory inputs.project)) (Staging workspace output) before.disk after.disk := by
  rcases picks with ⟨-, -, -, rfl⟩ | ⟨-, created⟩
  · exact early.staging output
  · exact (early.staging output).trans (created.frame (.inr rfl))

/-- Once an output is picked, everything is arranged as it should be. -/
theorem arranges {arranged : Arranged} (early : Early settings inputs workspace before middle)
    (picks : Picks settings inputs instant arranged.output middle after)
    (same : arranged.command.output = arranged.output) : Arranges settings inputs workspace arranged before after where
  output := same
  chosen := picks.chosen
  frame := early.picked picks
  stays := by
    rcases picks with ⟨-, -, -, rfl⟩ | ⟨-, created⟩
    · exact early.stays
    · exact early.stays.trans (stays_of_extends created.extends_disk)
  reserved unnamed := by
    rcases picks with ⟨name, named, -⟩ | ⟨-, created⟩
    · cases named.symm.trans unnamed
    · exact ⟨created.located, created.there⟩
  requested named := by
    rcases picks with ⟨-, -, -, rfl⟩ | ⟨unnamed, -⟩
    · exact early.frame
    · exact absurd unnamed named

end Early

private theorem stage_early (settings : Settings) (inputs : Inputs) (workspace : String) (machine : Machine) :
    Early settings inputs workspace machine ((stage settings inputs workspace).run.run machine).2 :=
  ⟨run_frame (stage_confined (fun _ _ staged => placeOf_below workspace staged.plain) settings inputs) machine,
    run_stays (stage_confined (fun _ _ _ => trivial) settings inputs) machine⟩

private theorem source_below {source uploaded : String} (staged : source = Path.join workspace (sourceName uploaded)) :
    placeOf workspace <+: placeOf source := by
  rw [staged]
  exact placeOf_below workspace (StagedNames.named_source uploaded).plain

private theorem probe_early {path : String} (inside : placeOf workspace <+: placeOf path) :
    Ensures (probe settings path) machine fun _ after => Early settings inputs workspace machine after :=
  ⟨run_frame (probe_within settings inside) machine,
    run_stays (probe_confined settings (fun _ => trivial) trivial fun _ => trivial) machine⟩

private theorem arrange_attempts :
    Attempts (arrange settings inputs workspace) machine
      (fun arranged after => Arranges settings inputs workspace arranged machine after)
      (fun _ after => ∃ output, Chosen settings inputs output ∧
        Frame (Through (settings.outputDirectory inputs.project)) (Staging workspace output) machine.disk after.disk) := by
  let directory := settings.outputDirectory inputs.project
  -- Up to the choice of the output `Early` holds after each step; what is picked is added to it.
  apply Attempts.bind ((attempts_also (stage_source settings inputs workspace machine)
    (stage_early settings inputs workspace machine)).weaken (fun _ _ holds => holds) fun _ _ holds => holds.2.stopped)
  rintro staged first ⟨source, early⟩
  have probed : Ensures (probe settings staged.inputs.source) first fun _ after =>
      Early settings inputs workspace machine after :=
    (probe_early (source_below source)).weaken fun _ _ further => early.trans further
  apply Attempts.bind (Attempts.ofJob probed)
  intro info second early
  apply Attempts.bind (compile_attempts settings _ fun _ => early.stopped)
  rintro compiled second ⟨-, rfl⟩
  apply Attempts.bind (Attempts.ofJob (Ensures.asked .now))
  rintro instant second ⟨-, rfl⟩
  have made : Ensures (Job.ask (.makeDirectories directory)) second fun _ after =>
      Early settings inputs workspace machine after := by
    apply (makeDirectories_grown second directory).weaken
    rintro _ after ⟨frame, stays⟩
    exact early.trans ⟨frame, stays⟩
  apply Attempts.bind ((Attempts.ofDisk_always made).weaken (fun _ _ holds => holds) fun _ _ early => early.stopped)
  intro _ third early
  have picked : Attempts (outputPath directory inputs.project inputs.request.outputName instant) third
      (fun output after => Picks settings inputs instant output third after) (fun _ after => after = third) :=
    outputPath_creates directory _ _ _
  apply Attempts.bind (picked.weaken (fun _ _ holds => holds) fun _ _ same => same ▸ early.stopped)
  intro output fourth picks
  apply Attempts.bind (Attempts.ofExcept _ _ fun _ => ⟨output, picks.chosen, early.picked picks⟩)
  rintro command fourth ⟨assembled, rfl⟩
  obtain ⟨-, -, -, same, -⟩ := assemble_ok assembled
  exact Attempts.pure (early.arranges picks same)

/-- The path of a log: one of the names that are tried at some instant. -/
def IsLog (directory path : String) : Prop :=
  ∃ instant, ∃ name ∈ Audit.candidates (Audit.fileName instant), path = Path.join directory name

/-- The engine can be started: its log is there, new and with nothing but a header. -/
structure Readied (settings : Settings) (inputs : Inputs) (workspace : String) (prepared : Prepared)
    (before after : Machine) : Prop where
  chosen : Chosen settings inputs prepared.command.output
  logged : IsLog (settings.outputDirectory inputs.project) prepared.log
  located : after.disk.locate prepared.log = .ok (placeOf prepared.log)
  header : ∃ instant, after.disk.at? (placeOf prepared.log) = some (.file
    (Audit.header inputs.project prepared.command.output prepared.command.line instant).toUTF8)
  fresh : before.disk.at? (placeOf prepared.log) = none
  frame : Frame (Through (settings.outputDirectory inputs.project))
    (fun place => Staging workspace prepared.command.output place ∨ place = placeOf prepared.log) before.disk after.disk
  reserved : requestedName inputs.request.outputName = none →
    after.disk.locate prepared.command.output = .ok (placeOf prepared.command.output) ∧
      after.disk.at? (placeOf prepared.command.output) = some (.file .empty) ∧
      placeOf prepared.log ≠ placeOf prepared.command.output

theorem Readied.unused {parent : String} {before : Disk} {made ready : Machine} {prepared : Prepared}
    (readied : Readied settings inputs workspace prepared made ready)
    (room : Opened parent workspace before made.disk) : before.at? (placeOf prepared.log) = none := by
  rcases room.frame.same (placeOf prepared.log) not_false with same | ⟨-, -, there⟩
  · exact same.symm.trans readied.fresh
  · cases readied.fresh.symm.trans there

private theorem prepare_attempts (settings : Settings) (inputs : Inputs) (workspace : String) (machine : Machine) :
    Attempts (prepare settings inputs workspace) machine
      (fun prepared after => Readied settings inputs workspace prepared machine after)
      (fun _ after => ∃ output, Chosen settings inputs output ∧
        Frame (Through (settings.outputDirectory inputs.project)) (Staging workspace output) machine.disk after.disk) := by
  apply Attempts.bind arrange_attempts
  intro arranged middle known
  have logged : Attempts (Attempt.ofDisk (Audit.create (settings.outputDirectory inputs.project) inputs.project
        arranged.output arranged.command.line arranged.instant)) middle
      (fun log after => Created (settings.outputDirectory inputs.project)
        (Audit.candidates (Audit.fileName arranged.instant)) log
        (Audit.header inputs.project arranged.output arranged.command.line arranged.instant).toUTF8 middle after)
      (fun _ after => after = middle) := by
    apply Attempts.ofDisk
    apply (create_creates _ _ _ _ _).weaken
    intro result after holds
    cases result <;> exact holds
  apply Attempts.bind (logged.weaken (fun _ _ holds => holds) fun _ _ same => by
    subst same
    exact ⟨arranged.output, known.chosen, known.frame⟩)
  intro log after created
  refine Attempts.pure ⟨?_, ⟨arranged.instant, created.candidate⟩, created.located, ⟨arranged.instant, ?_⟩,
    known.stays _ created.free, ?_, ?_⟩
  · rw [known.output]
    exact known.chosen
  · rw [known.output]
    exact created.there
  · rw [known.output]
    exact (known.frame.weaken (fun _ way => way) fun _ => .inl).trans (created.frame (.inr rfl))
  · intro unnamed
    obtain ⟨found, there⟩ := known.reserved unnamed
    rw [known.output]
    refine ⟨locate_firm created.extends_disk.firm found, created.extends_disk _ _ there, ?_⟩
    intro same
    have free := created.free
    rw [same, there] at free
    cases free

theorem prepare_ok {prepared : Prepared} {ready : Machine}
    (arrived : (prepare settings inputs workspace).run.run machine = (.ok prepared, ready)) :
    Readied settings inputs workspace prepared machine ready := by
  have holds := (prepare_attempts settings inputs workspace machine).holds
  rw [arrived] at holds
  exact holds

private theorem prepare_error {fault : Fault} {after : Machine}
    (stopped : (prepare settings inputs workspace).run.run machine = (.error fault, after)) :
    ∃ output, Chosen settings inputs output ∧
      Frame (Through (settings.outputDirectory inputs.project)) (Staging workspace output) machine.disk after.disk := by
  have holds := (prepare_attempts settings inputs workspace machine).holds
  rw [stopped] at holds
  exact holds

theorem launch_within {made files : List String → Prop} {prepared : Prepared}
    (output : files (placeOf prepared.command.output)) (log : files (placeOf prepared.log)) :
    Confined (Within made files) (launch settings inputs prepared) := by
  apply Confined.bind (invoke_within settings output log)
  intro result
  exact conclude_within settings _ _ result output

/-- The output, or a log that was not there before. -/
def Left (output log : String) (before : Disk) (place : List String) : Prop :=
  place = placeOf output ∨ place = placeOf log ∧ before.at? place = none

/-- However a render ends, it leaves at most an output and a new log, and directories on two ways. A render that
is stuck has more where nothing was. -/
theorem render_frame (settings : Settings) (inputs : Inputs) (machine : Machine) (rooted : Rooted machine.disk) :
    ∃ output log, Chosen settings inputs output ∧ IsLog (settings.outputDirectory inputs.project) log ∧
      Frame (fun place => Through (stagingDirectory settings) place ∨ Through (settings.outputDirectory inputs.project) place)
        (fun place => Left output log machine.disk place ∨
          ((render settings inputs).run machine).1.state = .preparing ∧ machine.disk.at? place = none)
        machine.disk ((render settings inputs).run machine).2.disk := by
  have course := render_course settings inputs machine
  obtain ⟨someOutput, chosen⟩ := chosen_some settings inputs
  have logged : IsLog (settings.outputDirectory inputs.project)
      (Path.join (settings.outputDirectory inputs.project) (Audit.fileName ⟨0, 0⟩)) :=
    ⟨⟨0, 0⟩, _, List.mem_cons_self, rfl⟩
  generalize (render settings inputs).run machine = ended at course ⊢
  cases course with
  | rejected | miscounted => exact ⟨_, _, chosen, logged, .refl _⟩
  | roomless found same refused =>
    have way := makeWorkspace_error refused
    exact ⟨_, _, chosen, logged, way.weaken (fun _ => .inl) fun _ impossible => impossible.elim⟩
  | unprepared found same opened stopped =>
    obtain ⟨output, chosen, frame⟩ := prepare_error stopped
    have gone := (makeWorkspace_ok opened).cleared rooted frame
    exact ⟨output, _, chosen, logged, gone.weaken (fun _ way => way) fun _ same => .inl (.inl same)⟩
  | stuck found same opened stopped =>
    obtain ⟨output, chosen, frame⟩ := prepare_error stopped
    have more := (makeWorkspace_ok opened).uncleared rooted frame
    refine ⟨output, _, chosen, logged, more.weaken (fun _ impossible => impossible.elim) ?_⟩
    rintro place (same | free)
    · exact .inl (.inl same)
    · exact .inr ⟨rfl, free⟩
  | @launched workspace made ready prepared found same opened arrived =>
    have room := makeWorkspace_ok opened
    have readied := prepare_ok arrived
    have started : Frame (Through (settings.outputDirectory inputs.project))
        (fun place => Staging workspace prepared.command.output place ∨ place = placeOf prepared.log)
        ready.disk ((launch settings inputs prepared).run ready).2.disk :=
      run_frame (launch_within (.inl (.inr rfl)) (.inr rfl)) ready
    have whole : Frame (Through (settings.outputDirectory inputs.project))
        (fun place => placeOf workspace <+: place ∨ Left prepared.command.output prepared.log machine.disk place)
        made.disk ((launch settings inputs prepared).run ready).2.disk := by
      apply (readied.frame.trans started).weaken fun _ way => way
      rintro place ((below | same) | same)
      · exact .inl below
      · exact .inr (.inl same)
      · subst same
        exact .inr (.inr ⟨rfl, readied.unused room⟩)
    exact ⟨_, _, readied.chosen, readied.logged, (room.cleared rooted whole).weaken (fun _ way => way) fun _ => .inl⟩

end Montage.Proofs.RenderLeavings
