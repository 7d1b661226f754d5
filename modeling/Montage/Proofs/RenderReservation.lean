import Montage.Proofs.JobMishaps
import Montage.Proofs.RenderLogs

/-! The output that a render reserves under a name of its own. A render that does not succeed clears it up unless it has
data, at whatever step it fails, but for one: a render whose log cannot be created stops there. -/

namespace Montage.Proofs.RenderReservation
open Montage.Filter Montage.Render DiskFrame DiskPlaces PathJoin JobFrame JobTrouble JobMishaps RenderOutput RenderSteps
  RenderWorkspace RenderCourse RenderLeavings RenderNames RenderLogs RenderOutcome StagedNames
open RenderLayout (assemble_ok)

variable {mishaps : Mishaps} {settings : Settings} {inputs : Inputs} {workspace : String}
  {machine : Machine}

section Reserving

private theorem createNew_weathers (path : String) : Weathers mishaps (Job.ask (.createNew path)) machine fun
    | .ok (), after => machine.disk.locate path = .ok (placeOf path) ∧ machine.disk.at? (placeOf path) = none ∧
        after = { machine with disk := machine.disk.put (placeOf path) (.file .empty) }
    | .error _, after => after = machine := by
  apply Weathers.ask
  · simp only [Machine.perform]
    cases tried : machine.disk.createNew path with
    | ok disk =>
      obtain ⟨place, found, free, rfl⟩ := createNew_ok tried
      obtain rfl := locate_placeOf found
      exact ⟨found, free, rfl⟩
    | error fault => rfl
  · intro fault reply left may told
    cases mishaps.leaves may
    cases Option.some.inj told
    rfl

private theorem reserveFirst_weathers (directory name : String) (candidates : List String) :
    Weathers mishaps (Audit.reserveFirst directory name candidates) machine fun
      | .ok path, after => Created directory candidates path .empty machine after
      | .error _, after => after = machine := by
  induction candidates with
  | nil => exact Weathers.pure rfl
  | cons candidate rest ih =>
    apply Weathers.bind (createNew_weathers _)
    rintro (fault | done) after holds
    · obtain rfl := holds
      by_cases taken : fault = .alreadyExists
      · subst taken
        apply ih.weaken
        rintro (fault | path) last holds
        · exact holds
        · obtain ⟨⟨other, member, same⟩, found, free, left⟩ := holds
          exact ⟨⟨other, List.mem_cons_of_mem _ member, same⟩, found, free, left⟩
      · cases fault <;> first | exact Weathers.pure rfl | exact absurd rfl taken
    · obtain ⟨found, free, rfl⟩ := holds
      exact Weathers.pure ⟨⟨candidate, List.mem_cons_self, rfl⟩, found, free, rfl⟩

private theorem create_weathers (directory project output commandLine : String) (instant : Instant) :
    Weathers mishaps (Audit.create directory project output commandLine instant) machine fun result after =>
      Extends machine.disk after.disk ∧
        (∀ log, result = .ok log → IsLog directory log) ∧
        ∃ log, IsLog directory log ∧ Frame (fun _ => False) (· = placeOf log) machine.disk after.disk := by
  have known : IsLog directory (Path.join directory (Audit.fileName instant)) := ⟨instant, _, List.mem_cons_self, rfl⟩
  apply Weathers.bind (reserveFirst_weathers directory _ _)
  rintro (fault | log) middle holds
  · obtain rfl := holds
    exact Weathers.pure ⟨.refl _, nofun, _, known, .refl _⟩
  · have logged : IsLog directory log := ⟨instant, holds.candidate⟩
    have noted : Confined (Within (fun _ => False) (· = placeOf log))
        (Job.ask (.append log (Audit.header project output commandLine instant).toUTF8)) := .ask rfl
    apply Weathers.bind (weathers_frame noted middle)
    intro reply after frame
    have kept : Extends machine.disk after.disk := by
      intro place entry there
      apply frame.kept ?_ (holds.extends_disk place entry there)
      rintro rfl
      cases holds.free.symm.trans there
    have first : Frame (fun _ => False) (· = placeOf log) machine.disk middle.disk := holds.frame rfl
    have whole := first.trans frame
    cases reply with
    | ok => exact Weathers.pure ⟨kept, fun _ same => Except.ok.inj same ▸ logged, log, logged, whole⟩
    | error fault => exact Weathers.pure ⟨kept, nofun, log, logged, whole⟩

end Reserving

section Arranging

private theorem stage_source_endures : Endures mishaps (stage settings inputs workspace) machine
    (fun staged _ => staged.inputs.source = Path.join workspace (sourceName inputs.source.name)) fun _ _ => True := by
  have any {α : Type} (attempt : Attempt α) (machine : Machine) :
      Endures mishaps attempt machine (fun _ _ => True) fun _ _ => True := by
    constructor
    rintro (fault | value) after - <;> trivial
  apply Endures.bind (any _ _)
  rintro _ _ -
  apply Endures.bind (any _ _)
  rintro _ _ -
  apply Endures.bind (any _ _)
  rintro _ _ -
  apply Endures.bind (any _ _)
  rintro _ _ -
  exact Endures.pure rfl

private theorem compile_endures (settings : Settings) (plan : Plan) {bad : Fault → Machine → Prop}
    (failure : ∀ fault, bad fault machine) : Endures mishaps (compile settings plan) machine
      (fun compiled after => plan.compile settings.canvas = some (.ok compiled) ∧ after = machine) bad := by
  unfold compile
  cases plan.compile settings.canvas with
  | none => exact Weathers.pure (failure _)
  | some result =>
    cases result with
    | ok compiled => exact Weathers.pure ⟨rfl, rfl⟩
    | error fault => exact Weathers.pure (failure _)

/-- What is different before a render reserves its output: files that it stages, and directories on the way to its
output. -/
def Grown (settings : Settings) (inputs : Inputs) (workspace : String) (before after : Machine) : Prop :=
  Frame (Through (settings.outputDirectory inputs.project))
    (fun place => ∃ name, Stages name ∧ place = placeOf (Path.join workspace name)) before.disk after.disk

theorem Grown.below {before after : Machine} (grown : Grown settings inputs workspace before after) :
    Frame (Through (settings.outputDirectory inputs.project)) (placeOf workspace <+: ·) before.disk after.disk := by
  apply grown.weaken fun _ way => way
  rintro _ ⟨name, stages, rfl⟩
  exact placeOf_below workspace stages.plain

/-- A render that picks the name of its output itself reserves it last, when nothing can fail any more but its log. -/
private theorem arrange_endures (unnamed : requestedName inputs.request.outputName = none) :
    Endures mishaps (arrange settings inputs workspace) machine
      (fun arranged after => arranged.command.output = arranged.output ∧ Chosen settings inputs arranged.output ∧
        ∃ middle candidates, Grown settings inputs workspace machine middle ∧
          Created (settings.outputDirectory inputs.project) candidates arranged.output .empty middle after)
      (fun _ after => Grown settings inputs workspace machine after) := by
  let directory := settings.outputDirectory inputs.project
  let staged (place : List String) := ∃ name, Stages name ∧ place = placeOf (Path.join workspace name)
  have staging : Confined (Within (Through directory) staged) (stage settings inputs workspace).run :=
    stage_confined (fun name _ stages => ⟨name, stages, rfl⟩) settings inputs
  apply Endures.bind ((stage_source_endures.also (weathers_frame staging machine)).weaken (fun _ _ holds => holds)
    fun _ _ holds => holds.2)
  rintro taken first ⟨source, grown⟩
  have asked : staged (placeOf taken.inputs.source) := ⟨_, stages_source _, congrArg placeOf source⟩
  apply Endures.bind (Endures.ofJob (weathers_frame (probe_within settings asked) first))
  intro info second probed
  have grown : Grown settings inputs workspace machine second := Frame.trans grown probed
  apply Endures.bind (compile_endures settings _ fun _ => grown)
  rintro compiled second ⟨compiles, rfl⟩
  obtain ⟨-, same⟩ := FilterCompile.compile_ok compiles
  cases same
  have clock : Confined (Within (Through directory) staged) (Job.ask .now) := .ask trivial
  apply Endures.bind (Endures.ofJob (weathers_frame clock second))
  intro instant third asked
  have way : Confined (Within (Through directory) staged) (Job.ask (.makeDirectories directory)) :=
    .ask fun _ through => through
  have grown : Grown settings inputs workspace machine third := Frame.trans grown asked
  apply Endures.bind (Endures.ofDisk_always
    ((weathers_frame way third).weaken fun _ _ frame => Frame.trans grown frame))
  intro _ fourth grown
  have reserves : Endures mishaps (outputPath directory inputs.project inputs.request.outputName instant) fourth
      (fun path after =>
        Created directory (Audit.candidates (defaultName inputs.project instant)) path .empty fourth after)
      (fun _ after => Grown settings inputs workspace machine after) := by
    rw [outputPath, unnamed]
    apply Endures.ofDisk
    apply (reserveFirst_weathers directory _ _).weaken
    rintro (fault | path) after holds
    · obtain rfl := holds
      exact grown
    · exact holds
  apply Endures.bind reserves
  intro output fifth created
  obtain ⟨command, assembled⟩ := FilterCompile.assembles _ settings.canvas settings.engine taken.inputs
    settings.encoding output
  apply Endures.bind (Endures.ofExcept_ok .graph assembled)
  rintro command fifth ⟨rfl, rfl⟩
  obtain ⟨-, -, -, same, -⟩ := assemble_ok assembled
  have chosen : Chosen settings inputs output := by
    rw [Chosen, IsOutput, unnamed]
    exact ⟨instant, created.candidate⟩
  exact Endures.pure ⟨same, chosen, fourth, _, grown, created⟩

end Arranging

section Clearing
variable {counts : Counts} {command : Command} {prepared : Prepared}

/-- The steps by which an empty output is cleared up: a look at an empty file, and a removal. -/
def Clearing (machine : Machine) : Action → Prop
  | .size path => machine.disk.size? path = some 0
  | .remove _ => True
  | _ => False

/-- Any step may fail but these. -/
abbrev elsewhere : Mishaps :=
  .sparing Clearing

def Clear (disk : Disk) (place : List String) : Prop :=
  ∀ content, disk.at? place = some (.file content) → 0 < content.size

private theorem size?_located {disk : Disk} {path : String} {content : ByteArray}
    (located : disk.locate path = .ok (placeOf path)) (there : disk.at? (placeOf path) = some (.file content)) :
    disk.size? path = some content.size := by
  simp [Disk.size?, Disk.find, located, there]

private theorem clear_of_size {disk : Disk} {path : String} (located : disk.locate path = .ok (placeOf path))
    (filled : disk.size? path ≠ some 0) : Clear disk (placeOf path) := by
  intro content there
  rw [size?_located located there] at filled
  exact Nat.pos_of_ne_zero fun none => filled (congrArg some none)

private theorem removeIfEmpty_weathers {path : String} (located : machine.disk.locate path = .ok (placeOf path)) :
    Weathers elsewhere (removeIfEmpty path) machine fun _ after => Clear after.disk (placeOf path) := by
  have looked : Weathers elsewhere (Job.ask (.size path)) machine fun size after =>
      after = machine ∧ (size = some 0 ↔ machine.disk.size? path = some 0) := by
    apply Weathers.ask ⟨rfl, Iff.rfl⟩
    rintro fault size left ⟨unspared, leaves⟩ told
    cases leaves
    obtain rfl := Option.some.inj told
    exact ⟨rfl, iff_of_false nofun unspared⟩
  apply Weathers.bind looked
  rintro size machine ⟨rfl, empty_iff⟩
  split
  next =>
    have empty := empty_iff.mp rfl
    have removed : Weathers elsewhere (Job.ask (.remove path)) machine fun _ after =>
        Clear after.disk (placeOf path) := by
      have spared {left : Machine} : ¬ elsewhere.may machine (.remove path) left :=
        fun may => may.1 trivial
      apply Weathers.ask ?_ fun _ _ _ may => absurd may spared
      simp only [Disk.size?, Disk.find, located] at empty
      simp only [Machine.perform, Disk.remove, located]
      cases there : machine.disk.at? (placeOf path) with
      | none => simp [there] at empty
      | some entry =>
        cases entry with
        | directory => simp [there, Disk.directorySize] at empty
        | file content =>
          have inside : placeOf path ≠ [] := inside_of_not_directory (by rw [there]; simp)
          intro content still
          cases still.symm.trans (at?_erase_same machine.disk inside)
    apply Weathers.bind removed
    intro _ after clear
    exact Weathers.pure clear
  next size other => exact Weathers.pure (clear_of_size located fun empty => other (empty_iff.mpr empty))

private theorem conclude_weathers {log : String} {outcome : Except Fault Nat}
    (located : machine.disk.locate command.output = .ok (placeOf command.output)) :
    Weathers elsewhere (conclude settings counts command log outcome) machine fun result after =>
      result.state = .succeeded ∨ Clear after.disk (placeOf command.output) := by
  cases outcome with
  | ok size =>
    apply Weathers.bind ⟨fun _ => trivial⟩
    intro info after _
    exact Weathers.pure (.inl rfl)
  | error fault =>
    apply Weathers.bind (removeIfEmpty_weathers located)
    intro _ after clear
    exact Weathers.pure (.inr clear)

/-- Whatever became of the engine, a render that was launched has succeeded or clears up. -/
private theorem launch_weathers
    (located : machine.disk.locate prepared.command.output = .ok (placeOf prepared.command.output)) :
    Weathers elsewhere (launch settings inputs prepared) machine fun result after =>
      result.state = .succeeded ∨ Clear after.disk (placeOf prepared.command.output) := by
  have invoked : Confined (Within (fun _ => False) fun place =>
      place = placeOf prepared.command.output ∨ place = placeOf prepared.log)
      (invoke settings prepared.command prepared.log).run := invoke_within settings (.inl rfl) (.inr rfl)
  apply Weathers.bind (weathers_frame invoked machine)
  intro outcome after frame
  exact conclude_weathers (locate_firm frame.firm located)

end Clearing

section Rendering

private theorem makeBelow_weathers (parent : String) : Weathers mishaps (Job.ask (.makeWorkspace parent)) machine fun
    | .ok workspace, after => Opened parent workspace machine.disk after.disk
    | .error _, after => after = machine := by
  apply Weathers.ask (makeBelow_opened parent).holds
  intro fault reply left may told
  cases mishaps.leaves may
  cases Option.some.inj told
  rfl

private theorem makeWorkspace_weathers (settings : Settings) (machine : Machine) :
    Weathers mishaps (makeWorkspace settings) machine fun
    | .ok workspace, after => Opened (stagingDirectory settings) workspace machine.disk after.disk
    | .error _, after => Frame (Through (stagingDirectory settings)) (fun _ => False) machine.disk after.disk := by
  unfold makeWorkspace stagingDirectory
  cases settings.stagingRoot with
  | none =>
    apply (makeBelow_weathers temporaryDirectory).weaken
    rintro (fault | workspace) after holds
    · obtain rfl := holds
      exact .refl _
    · exact holds
  | some root =>
    have way : Within (Through root) (fun _ => False) (.makeDirectories root) := fun _ through => through
    have led : Weathers mishaps (Job.ask (.makeDirectories root)) machine fun reply after =>
        Frame (Through root) (fun _ => False) machine.disk after.disk ∧
          (reply = .ok () → Stays machine.disk after.disk) := by
      apply Weathers.ask
      · obtain ⟨frame, stays⟩ := (makeDirectories_grown machine root).holds
        exact ⟨frame, fun _ => stays⟩
      · intro fault reply left may told
        cases Option.some.inj told
        refine ⟨leaves_frame way (mishaps.leaves may), fun done => ?_⟩
        cases done
    apply Weathers.bind led
    rintro (fault | done) middle ⟨frame, stays⟩
    · exact Weathers.pure frame
    · apply (makeBelow_weathers root).weaken
      rintro (fault | workspace) after holds
      · obtain rfl := holds
        exact frame
      · refine ⟨holds.named, stays rfl _ holds.fresh, holds.located, holds.directory, ?_⟩
        exact (frame.weaken (fun _ => .inl) fun _ inside => inside).trans holds.frame

/-- The output of a render was reserved and its log could not be created. What was reserved is left, unless it lies
where the render staged its inputs. -/
inductive Unlogged (settings : Settings) (inputs : Inputs) (machine : Machine) : Result → Machine → Prop where
  | mk {workspace : String} {made reserved left : Machine} {arranged : Arranged} {fault : DiskFault}
      (opened : Fares elsewhere (makeWorkspace settings) machine (.ok workspace) made)
      (arranges : Fares elsewhere (arrange settings inputs workspace).run made (.ok arranged) reserved)
      (refused : Fares elsewhere (Audit.create (settings.outputDirectory inputs.project) inputs.project arranged.output
        arranged.command.line arranged.instant) reserved (.error fault) left)
      (remains : ¬ placeOf workspace <+: placeOf arranged.output →
        machine.disk.at? (placeOf arranged.output) = none ∧
          (cleared workspace left).disk.at? (placeOf arranged.output) = some (.file .empty)) :
      Unlogged settings inputs machine (unfinished .failed inputs.request (.disk fault)) (cleared workspace left)

/-- No output that a render may have reserved is left without data. -/
def Settled (settings : Settings) (inputs : Inputs) (before after : Machine) : Prop :=
  ∀ output, Chosen settings inputs output → before.disk.at? (placeOf output) = none →
    Clear after.disk (placeOf output)

theorem clear_of_none {disk : Disk} {place : List String} (free : disk.at? place = none) : Clear disk place :=
  fun _ there => by cases free.symm.trans there

theorem clear_of_frame {made files : List String → Prop} {before after : Disk} {place : List String}
    (frame : Frame made files before after) (outside : ¬ files place) (clear : Clear before place) :
    Clear after place := by
  intro content there
  obtain same | ⟨-, -, directory⟩ := frame.same place outside
  · exact clear content (same.symm.trans there)
  · cases directory.symm.trans there

private theorem clear_of_cleared {made files : List String → Prop} {parent : String} {before opened after : Disk}
    {place : List String} (room : Opened parent workspace before opened)
    (frame : Frame made (fun place => placeOf workspace <+: place ∨ files place) opened after)
    (free : before.at? place = none) (clear : files place → Clear after place) :
    Clear (after.removeTree workspace) place := by
  have some_name : place ≠ [] := by
    rintro rfl
    cases free
  by_cases below : placeOf workspace <+: place
  · exact clear_of_none (removeTree_inside (locate_firm frame.firm room.located) below some_name)
  · have kept : Clear after place := by
      by_cases inside : files place
      · exact clear inside
      · exact clear_of_frame frame (by simp [below, inside]) (clear_of_frame room.frame not_false (clear_of_none free))
    intro content there
    rw [removeTree_outside _ below] at there
    exact kept content there

variable {made : Machine}

/-- Where the engine's output and the logs of a project may be, besides where a render stages. -/
def Touched (settings : Settings) (inputs : Inputs) (workspace output : String) (place : List String) : Prop :=
  placeOf workspace <+: place ∨ place = placeOf output ∨
    ∃ log, IsLog (settings.outputDirectory inputs.project) log ∧ place = placeOf log

section Settling
variable {after : Machine} (room : Opened (stagingDirectory settings) workspace machine.disk made.disk)
  (grown : Grown settings inputs workspace made after)
include room grown

private theorem settled_cleared : Settled settings inputs machine (cleared workspace after) := by
  intro output _ free
  have within : Frame (Through (settings.outputDirectory inputs.project))
      (fun place => placeOf workspace <+: place ∨ False) made.disk after.disk :=
    grown.below.weaken (fun _ way => way) fun _ => .inl
  exact clear_of_cleared room within free False.elim

private theorem settled_uncleared (unnamed : requestedName inputs.request.outputName = none) :
    Settled settings inputs machine after := by
  intro output chosen free
  apply clear_of_frame grown ?_ (clear_of_frame room.frame not_false (clear_of_none free))
  rintro ⟨name, stages, same⟩
  exact chosen_unstaged unnamed chosen stages same

end Settling

private theorem prepare_endures (room : Opened (stagingDirectory settings) workspace machine.disk made.disk)
    (opened : Fares elsewhere (makeWorkspace settings) machine (.ok workspace) made)
    (unnamed : requestedName inputs.request.outputName = none) :
    Endures elsewhere (prepare settings inputs workspace) made
      (fun prepared after => IsLog (settings.outputDirectory inputs.project) prepared.log ∧
        after.disk.locate prepared.command.output = .ok (placeOf prepared.command.output) ∧
        Frame (Through (settings.outputDirectory inputs.project))
          (Touched settings inputs workspace prepared.command.output) made.disk after.disk)
      (fun fault after => Grown settings inputs workspace made after ∨ fault ≠ .endless ∧
        Unlogged settings inputs machine (unfinished .failed inputs.request fault) (cleared workspace after)) := by
  have arranges := (arrange_endures unnamed).also (.itself elsewhere (arrange settings inputs workspace).run made)
  apply Endures.bind (arranges.weaken (fun _ _ holds => holds) fun _ _ holds => .inl holds.1)
  rintro arranged reserved ⟨⟨same, chosen, middle, candidates, grown, created⟩, fares⟩
  have remains (outside : ¬ placeOf workspace <+: placeOf arranged.output) :
      machine.disk.at? (placeOf arranged.output) = none := by
    obtain kept | ⟨-, -, directory⟩ := grown.below.same _ outside
    · obtain earlier | ⟨-, free, -⟩ := room.frame.same (placeOf arranged.output) not_false
      · exact (earlier.symm.trans kept.symm).trans created.free
      · exact free
    · cases created.free.symm.trans directory
  have creates := (create_weathers (settings.outputDirectory inputs.project) inputs.project arranged.output
    arranged.command.line arranged.instant).both (.itself elsewhere _ reserved)
  -- This is the one exception: what was reserved stays when the log cannot be created.
  have logs : Endures elsewhere (Attempt.ofDisk (Audit.create (settings.outputDirectory inputs.project) inputs.project
        arranged.output arranged.command.line arranged.instant)) reserved
      (fun log after => IsLog (settings.outputDirectory inputs.project) log ∧ Extends reserved.disk after.disk ∧
        ∃ log, IsLog (settings.outputDirectory inputs.project) log ∧
          Frame (fun _ => False) (· = placeOf log) reserved.disk after.disk)
      (fun fault after => fault ≠ .endless ∧
        Unlogged settings inputs machine (unfinished .failed inputs.request fault) (cleared workspace after)) := by
    apply Endures.ofDisk
    apply creates.weaken
    rintro (fault | log) left ⟨⟨extended, logged, frame⟩, refused⟩
    · refine ⟨nofun, .mk opened fares refused fun outside => ⟨remains outside, ?_⟩⟩
      exact (removeTree_outside _ outside).trans (extended _ _ created.there)
    · exact ⟨logged log rfl, extended, frame⟩
  apply Endures.bind (logs.weaken (fun _ _ holds => holds) fun _ _ => .inr)
  rintro log after ⟨logged, extended, other, known, frame⟩
  have whole : Frame (Through (settings.outputDirectory inputs.project))
      (Touched settings inputs workspace arranged.output) made.disk after.disk := by
    apply Frame.trans (grown.below.weaken (fun _ way => way) fun _ => .inl)
    apply Frame.trans (created.frame (.inr (.inl rfl)))
    exact frame.weaken (fun _ => False.elim) fun place same => .inr (.inr ⟨other, known, same⟩)
  rw [← same] at whole
  refine Endures.pure ⟨logged, ?_, whole⟩
  rw [same]
  exact locate_firm extended.firm created.located

private theorem work_weathers (room : Opened (stagingDirectory settings) workspace machine.disk made.disk)
    (opened : Fares elsewhere (makeWorkspace settings) machine (.ok workspace) made)
    (unnamed : requestedName inputs.request.outputName = none) :
    Endures elsewhere (work settings inputs workspace) made
      (fun result after => result.state = .succeeded ∨ Settled settings inputs machine (cleared workspace after))
      (fun fault after => Grown settings inputs workspace made after ∨ fault ≠ .endless ∧
        Unlogged settings inputs machine (unfinished .failed inputs.request fault) (cleared workspace after)) := by
  rw [work_prepared]
  apply Endures.bind (prepare_endures room opened unnamed)
  rintro prepared ready ⟨logged, located, frame⟩
  apply Endures.ofJob
  have within : Confined (Within (Through (settings.outputDirectory inputs.project))
      (Touched settings inputs workspace prepared.command.output)) (launch settings inputs prepared) :=
    launch_within (.inr (.inl rfl)) (.inr (.inr ⟨_, logged, rfl⟩))
  apply ((launch_weathers located).both (weathers_frame within ready)).weaken
  rintro result after ⟨ended, changed⟩
  apply ended.imp_right
  intro clear output chosen free
  apply clear_of_cleared room (frame.trans changed) free
  rintro (same | ⟨log, known, same⟩)
  · exact same ▸ clear
  · have spares : SparesLogs inputs.request := fun _ _ _ => by simp [unnamed]
    exact absurd same (output_apart spares chosen known)

/-- Whatever fails, a render that picked the name of its output itself has succeeded, or left no output without data, or
could not create its log. -/
private theorem render_weathers (unnamed : requestedName inputs.request.outputName = none) :
    Weathers elsewhere (render settings inputs) machine fun result after => result.state = .succeeded ∨
      Settled settings inputs machine after ∨ Unlogged settings inputs machine result after := by
  have untouched : Settled settings inputs machine machine := fun _ _ free => clear_of_none free
  have found : Weathers elsewhere (findEngine settings.engine).run machine fun _ after => after = machine := by
    have asked : Weathers elsewhere (Job.ask (.findProgram settings.engine)) machine fun _ after => after = machine :=
      Weathers.ask rfl fun _ _ _ _ told => nomatch told
    apply Weathers.bind asked
    intro there after same
    cases there <;> exact Weathers.pure same
  have executed : Weathers elsewhere (execute settings inputs).run machine fun
      | .ok result, after => result.state = .succeeded ∨ Settled settings inputs machine after
      | .error fault, after => Settled settings inputs machine after ∨ fault ≠ .endless ∧
          Unlogged settings inputs machine (unfinished .failed inputs.request fault) after := by
    by_cases same : inputs.clips.length = inputs.request.clips.length
    · simp only [execute, ExceptT.run_mk, ne_eq, same, not_true_eq_false, if_false]
      apply Weathers.bind ((makeWorkspace_weathers settings machine).both (.itself _ _ _))
      rintro (fault | workspace) made ⟨room, opened⟩
      · refine Weathers.pure (.inl fun output _ free => ?_)
        exact clear_of_frame room not_false (clear_of_none free)
      · apply Weathers.bind (work_weathers room opened unnamed)
        intro result last holds
        have removed : Weathers elsewhere (Job.ask (.removeTree workspace)) last fun _ after =>
            after = cleared workspace last :=
          Weathers.ask rfl fun _ _ _ _ told => nomatch told
        by_cases endless : result = .error .endless
        · subst endless
          exact Weathers.pure (.inl (settled_uncleared room (holds.resolve_right fun other => other.1 rfl) unnamed))
        · rw [leave_ended endless]
          apply Weathers.bind removed
          rintro _ _ rfl
          cases result with
          | ok result => exact Weathers.pure holds
          | error fault => exact Weathers.pure (holds.imp_left (settled_cleared room))
    · simp only [execute, ExceptT.run_mk, ne_eq, same, not_false_eq_true, if_true]
      exact Weathers.pure (.inl untouched)
  apply Weathers.bind found
  rintro (fault | engine) machine rfl
  · exact Weathers.pure (.inr (.inl untouched))
  · apply Weathers.bind executed
    rintro (fault | result) after holds
    · by_cases endless : fault = .endless
      · subst endless
        exact Weathers.pure (.inr (.inl (holds.resolve_right fun other => other.1 rfl)))
      · rw [told_failed endless]
        exact Weathers.pure (.inr (holds.imp_right And.right))
    · exact Weathers.pure (holds.imp_right .inl)

end Rendering

/-- A render that picks the name of its output itself and does not succeed leaves no empty output behind, whichever of
its steps fail and however the engine ends, as long as clearing up does not fail itself. There is one exception: a
render that cannot create its log leaves the output that it has just reserved. -/
theorem reservation_cleared (settings : Settings) (inputs : Inputs) (machine after : Machine) (result : Result)
    (unnamed : requestedName inputs.request.outputName = none)
    (fares : Fares elsewhere (render settings inputs) machine result after) (broken : result.state ≠ .succeeded) :
    (∀ output, Chosen settings inputs output → machine.disk.at? (placeOf output) = none →
      Clear after.disk (placeOf output)) ∨ Unlogged settings inputs machine result after :=
  ((render_weathers unnamed).holds fares).resolve_left broken

def stuckMachine : Machine where
  disk := (idleMachine "film.mp4" .directory).disk
  programs := [("ffmpeg", { startable := false, behave := fun _ _ => {} })]

theorem stuck_engine_cleared : requestedName (plainInputs none).request.outputName = none ∧
    (((render {} (plainInputs none)).run stuckMachine).1.state ≠ .succeeded) ∧
    ((∀ output, Chosen {} (plainInputs none) output → stuckMachine.disk.at? (placeOf output) = none →
        Clear ((render {} (plainInputs none)).run stuckMachine).2.disk (placeOf output)) ∨
      Unlogged {} (plainInputs none) stuckMachine ((render {} (plainInputs none)).run stuckMachine).1
        ((render {} (plainInputs none)).run stuckMachine).2) := by
  have broken : ((render {} (plainInputs none)).run stuckMachine).1.state ≠ .succeeded := by decide +kernel
  exact ⟨rfl, broken, reservation_cleared _ _ _ _ _ rfl (fares_run _ _) broken⟩

/-- A disk on which files can be created and nothing more can be written to them. -/
def fullDisk : Trouble
  | .append _ _ => some (.other "No space left on device (os error 28)")
  | _ => none

/-- Where the header of a log cannot be written, a render fails and leaves an empty output that was not there before. -/
theorem reservation_left : ∃ result after, Fares elsewhere (render {} (plainInputs none)) stuckMachine result after ∧
    requestedName (plainInputs none).request.outputName = none ∧ result.state = .failed ∧
    stuckMachine.disk.size? "data/p/rendered/rendered_p_19700101_000000.mp4" = none ∧
    after.disk.size? "data/p/rendered/rendered_p_19700101_000000.mp4" = some 0 := by
  have may : ∀ machine action fault, fullDisk action = some fault →
      elsewhere.may machine action machine := by
    intro machine action fault full
    cases action with
    | append path content => exact ⟨id, .untouched⟩
    | _ => cases full
  refine ⟨_, _, fares_amid may _ _, ?_⟩
  decide +kernel

end Montage.Proofs.RenderReservation
