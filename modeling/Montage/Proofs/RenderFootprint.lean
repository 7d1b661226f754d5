import Montage.Proofs.FilterNumbers
import Montage.Proofs.RenderNames
import Montage.Proofs.RenderOutcome
import Montage.Proofs.StoreKept

/-! What a request to render leaves on the disk, whatever it asks for and however it goes. The store, which
may lie in the same directory as the outputs, gives the same answers afterwards. -/

namespace Montage.Proofs.RenderFootprint
open Montage.Render JobLogic DiskFrame DiskPlaces DiskTree PathJoin JobFrame RenderWorkspace RenderCourse RenderLeavings
  RenderNames RenderArrival RenderOutcome StoreReads StoreKept

/-- Neither of two directories lies in the other one. -/
structure Apart (one two : String) : Prop where
  outside : ¬ placeOf one <+: placeOf two
  around : ¬ placeOf two <+: placeOf one

/-- A directory was made where nothing was, on the way to the outputs or to where a render stages. -/
structure Way (settings : Settings) (project : String) (before after : Disk) (place : List String) : Prop where
  leads : Through (stagingDirectory settings) place ∨ Through (settings.outputDirectory project) place
  free : before.at? place = none
  made : after.at? place = some .directory

/-- What may be different at a place after a render: a directory was made on one of the two ways, or the place is that
of its output or of its log, which is a new file. -/
inductive Difference (settings : Settings) (project output log : String) (before after : Disk) (place : List String) :
    Prop
  | way (way : Way settings project before after place)
  | output (named : place = placeOf (settings.outputDirectory project) ++ [output])
      (file : before.at? place ≠ some .directory)
  | log (named : place = placeOf (settings.outputDirectory project) ++ [log]) (free : before.at? place = none)

structure Footprint (settings : Settings) (project : String) (before after : Machine) : Prop where
  differences : ∃ output log, Plain output ∧ Plain log ∧ ∀ place, after.disk.at? place ≠ before.disk.at? place →
    Difference settings project output log before.disk after.disk place
  /-- Nothing of what was staged is left, nor anything else below the directory to stage in, but for directories that
  a path with a step back leads through. -/
  swept : ∀ place, placeOf (stagingDirectory settings) <+: place → place ≠ placeOf (stagingDirectory settings) →
    after.disk.at? place = before.disk.at? place ∨
      (".." ∈ Path.parts settings.dataRoot ∨ ".." ∈ Path.parts (stagingDirectory settings)) ∧
        Way settings project before.disk after.disk place
  /-- When the directory is there that the one to stage in lies in, no other is made on the way to it. -/
  staged : ".." ∉ Path.parts (stagingDirectory settings) →
    before.disk.at? (placeOf (stagingDirectory settings)).dropLast = some .directory →
    ∀ place, after.disk.at? place ≠ before.disk.at? place → Through (stagingDirectory settings) place →
      place = placeOf (stagingDirectory settings) ∨ Through (settings.outputDirectory project) place
  projects : ∀ store id, HasProject store id before →
    ((store.getProject id).run.run after).1 = ((store.getProject id).run.run before).1
  files : ∀ store id, HasFile store id before →
    ((store.getFile id).run.run after).1 = ((store.getFile id).run.run before).1
  /-- What lies in the directory of another project are the same files as before. -/
  others : ∀ other, Store.isKey other = true → other ≠ project →
    ∀ place content, placeOf (Path.join settings.dataRoot other) <+: place →
      (after.disk.at? place = some (.file content) ↔ before.disk.at? place = some (.file content))

private theorem footprint_same (settings : Settings) (project : String) (machine : Machine) :
    Footprint settings project machine machine := by
  have plain : Plain "rendered" := by decide
  exact ⟨⟨_, _, plain, plain, fun place differs => absurd rfl differs⟩, fun _ _ _ => .inl rfl,
    fun _ _ place differs _ => absurd rfl differs, fun _ _ _ => rfl, fun _ _ _ => rfl, fun _ _ _ _ _ _ => Iff.rfl⟩

variable {settings : Settings} {project : String} (plain : Plain project)
include plain

theorem placeOf_outputDirectory :
    placeOf (settings.outputDirectory project) = placeOf settings.dataRoot ++ [project] ++ ["rendered"] := by
  have rendered : Plain "rendered" := by decide
  rw [Settings.outputDirectory, placeOf_join _ rendered, placeOf_join _ plain]

private theorem through_outputDirectory {place : List String}
    (through : Through (settings.outputDirectory project) place) :
    Through settings.dataRoot place ∨ placeOf settings.dataRoot <+: place := by
  have rendered : Plain "rendered" := by decide
  rcases through_join rendered through with through | rfl
  · rcases through_join plain through with root | rfl
    · exact .inl root
    · exact .inr (List.prefix_append _ _)
  · right
    rw [placeOf_join _ plain, List.append_assoc]
    exact List.prefix_append _ _

omit plain

theorem Apart.disjoint {one two : String} (apart : Apart one two) {place : List String} (first : placeOf one <+: place)
    (second : placeOf two <+: place) : False := by
  rcases List.prefix_or_prefix_of_prefix first second with inside | inside
  · exact apart.outside inside
  · exact apart.around inside

private theorem kind_apart {front back : List String} {kind name output : String} (other : kind ≠ "rendered") :
    front ++ [kind] ++ [name] ≠ back ++ ["rendered"] ++ [output] := by
  intro same
  have fronts := List.append_inj_left' same rfl
  exact other (List.head_eq_of_cons_eq (List.append_inj_right' fronts rfl))

section Frames
variable {output log : String} {before after : Machine} (plain : Plain project) (named : Plain output)
  (logged : Plain log)
  (frame : Frame (fun place => Through (stagingDirectory settings) place ∨ Through (settings.outputDirectory project) place)
    (Left (Path.join (settings.outputDirectory project) output) (Path.join (settings.outputDirectory project) log)
      before.disk) before.disk after.disk)
include named logged frame

theorem difference_of_frame {place : List String} (differs : after.disk.at? place ≠ before.disk.at? place) :
    Difference settings project output log before.disk after.disk place := by
  by_cases left : Left (Path.join (settings.outputDirectory project) output)
      (Path.join (settings.outputDirectory project) log) before.disk place
  · rcases left with same | ⟨same, free⟩
    · rw [placeOf_join _ named] at same
      apply Difference.output same
      intro directory
      exact differs ((frame.firm place directory).trans directory.symm)
    · rw [placeOf_join _ logged] at same
      exact .log same free
  · rcases frame.same place left with same | ⟨leads, free, made⟩
    · exact absurd same differs
    · exact .way ⟨leads, free, made⟩

include plain

theorem read_of_frame {path kind name : String} {front : List String} {content : ByteArray} (other : kind ≠ "rendered")
    (lies : placeOf path = front ++ [kind] ++ [name]) (read : before.disk.read path = .ok content) :
    after.disk.read path = .ok content := by
  apply frame.read ?_ read
  rw [lies]
  rintro (same | ⟨same, -⟩)
  · rw [placeOf_join _ named, placeOf_outputDirectory plain] at same
    exact kind_apart other same
  · rw [placeOf_join _ logged, placeOf_outputDirectory plain] at same
    exact kind_apart other same

private theorem projects_of_frame {store : Store} {id : String} (has : HasProject store id before) :
    ((store.getProject id).run.run after).1 = ((store.getProject id).run.run before).1 := by
  obtain ⟨text, read⟩ := has.record
  have again := read_of_frame plain named logged frame (by decide) (placeOf_projectRecord store has.key) read
  exact run_agree (getProject_confined (again.trans read.symm))

private theorem files_of_frame {store : Store} {id : String} (has : HasFile store id before) :
    ((store.getFile id).run.run after).1 = ((store.getFile id).run.run before).1 := by
  obtain ⟨text, record⟩ := has.record
  obtain ⟨content, held⟩ := has.content
  have record_again := read_of_frame plain named logged frame (by decide) (placeOf_fileRecord store has.key) record
  have content_again := read_of_frame plain named logged frame (by decide) (placeOf_content store has.key) held
  symm
  apply getFile_agree (record.trans record_again.symm)
  intro file found
  rw [has.location file found]
  exact held.trans content_again.symm

private theorem others_of_frame {other : String} (key : Plain other) (apart : other ≠ project) {place : List String}
    (content : ByteArray) (inside : placeOf (Path.join settings.dataRoot other) <+: place) :
    after.disk.at? place = some (.file content) ↔ before.disk.at? place = some (.file content) := by
  have elsewhere : ∀ name, place ≠ placeOf (settings.outputDirectory project) ++ [name] := by
    rintro name rfl
    rw [placeOf_join _ key, placeOf_outputDirectory plain, List.append_assoc, List.append_assoc,
      List.prefix_append_right_inj] at inside
    exact apart (List.cons_prefix_cons.mp inside).1
  by_cases same : after.disk.at? place = before.disk.at? place
  · rw [same]
  · cases difference_of_frame named logged frame same with
    | way way => simp [way.free, way.made]
    | output lies => exact absurd lies (elsewhere output)
    | log lies => exact absurd lies (elsewhere log)

private theorem swept_of_frame (apart : Apart settings.dataRoot (stagingDirectory settings)) {place : List String}
    (inside : placeOf (stagingDirectory settings) <+: place) (below : place ≠ placeOf (stagingDirectory settings)) :
    after.disk.at? place = before.disk.at? place ∨
      (".." ∈ Path.parts settings.dataRoot ∨ ".." ∈ Path.parts (stagingDirectory settings)) ∧
        Way settings project before.disk after.disk place := by
  have outside : ∀ name, place ≠ placeOf (settings.outputDirectory project) ++ [name] := by
    rintro name rfl
    rw [placeOf_outputDirectory plain, List.append_assoc, List.append_assoc] at inside
    exact apart.disjoint (List.prefix_append _ _) inside
  rw [or_iff_not_imp_left]
  intro differs
  cases difference_of_frame named logged frame differs with
  | output lies => exact absurd lies (outside output)
  | log lies => exact absurd lies (outside log)
  | way way =>
    refine ⟨?_, way⟩
    by_contra straight
    obtain ⟨straight, down⟩ := not_or.mp straight
    rcases way.leads with staging | outputs
    · have above := through_straight down staging
      exact below (above.eq_of_length (Nat.le_antisymm above.length_le inside.length_le))
    · rcases through_outputDirectory plain outputs with root | beneath
      · exact apart.around (inside.trans (through_straight straight root))
      · exact apart.disjoint beneath inside

private theorem staged_of_frame (rooted : Rooted before.disk)
    (apart : Apart settings.dataRoot (stagingDirectory settings))
    (there : before.disk.at? (placeOf (stagingDirectory settings)).dropLast = some .directory)
    {place : List String} (above : place <+: placeOf (stagingDirectory settings))
    (differs : after.disk.at? place ≠ before.disk.at? place) :
    place = placeOf (stagingDirectory settings) ∨ Through (settings.outputDirectory project) place := by
  have outside : ∀ name, place ≠ placeOf (settings.outputDirectory project) ++ [name] := by
    rintro name rfl
    rw [placeOf_outputDirectory plain, List.append_assoc, List.append_assoc] at above
    exact apart.outside ((List.prefix_append _ _).trans above)
  cases difference_of_frame named logged frame differs with
  | output lies => exact absurd lies (outside output)
  | log lies => exact absurd lies (outside log)
  | way way =>
    left
    rcases List.eq_nil_or_concat (placeOf (stagingDirectory settings)) with root | ⟨front, last, ends⟩
    · rw [root] at above ⊢
      exact List.prefix_nil.mp above
    · rw [List.concat_eq_append] at ends
      rw [ends, List.dropLast_concat] at there
      rw [ends] at above ⊢
      rcases List.prefix_concat_iff.mp above with whole | proper
      · exact whole
      · cases (nothing_below rooted way.free proper).symm.trans there

end Frames

private theorem footprint_of_render (settings : Settings) (inputs : Inputs) (machine : Machine)
    (rooted : Rooted machine.disk)
    (apart : Apart settings.dataRoot (stagingDirectory settings)) (plain : Plain inputs.project)
    (ends : ¬ Stuck settings inputs machine) :
    Footprint settings inputs.project machine ((render settings inputs).run machine).2 := by
  obtain ⟨_, _, chosen, logged, more⟩ := render_frame settings inputs machine rooted
  have prepared := (not_congr (render_classified settings inputs machine).preparing).mpr ends
  have frame := more.weaken (fun _ way => way) fun _ left => left.resolve_right fun stuck => prepared stuck.1
  obtain ⟨output, named, rfl⟩ := chosen_named plain.no_slash chosen
  obtain ⟨log, dotted, rfl⟩ := log_named logged
  have logged := dotted.plain suffix_log
  exact {
    differences := ⟨output, log, named, logged, fun place differs => difference_of_frame named logged frame differs⟩
    swept := fun place inside below => swept_of_frame plain named logged frame apart inside below
    staged := fun down there place differs through =>
      staged_of_frame plain named logged frame rooted apart there (through_straight down through) differs
    projects := fun store id has => projects_of_frame plain named logged frame has
    files := fun store id has => files_of_frame plain named logged frame has
    others := fun other key different place content inside =>
      others_of_frame plain named logged frame (key_plain key) different content inside }

private theorem render_rejected {settings : Settings} {inputs : Inputs} {machine : Machine}
    (rejected : ((render settings inputs).run machine).1.state = .rejected) :
    ((render settings inputs).run machine).2 = machine := by
  have missing := (render_classified settings inputs machine).rejected.mp rejected
  have course := render_course settings inputs machine
  generalize (render settings inputs).run machine = ended at course ⊢
  cases course with
  | rejected => rfl
  | miscounted found | roomless found | unprepared found | stuck found | launched found =>
    exact absurd missing (Option.isSome_iff_ne_none.mp found)

private theorem read_unstuck {json : Json} {settings : Settings} {inputs : Inputs} {machine : Machine}
    (read : Request.read json = .ok inputs.request) (accepted : inputs.request.violations = []) :
    ¬ Stuck settings inputs machine := by
  rintro ⟨-, -, -, -, -, -, unsplit⟩
  have finite := RequestNumbers.request_finite json inputs.request read
  have kept := (RequestViolations.accepted_iff finite).mp accepted
  exact FilterNumbers.request_ends finite kept none true ⟨rfl, unsplit⟩

/-- A request to render leaves at most a footprint, and a render that is rejected leaves nothing at all. -/
theorem renderProject_footprint (service : Service) (project : String) {json : Json} {request : Request}
    (read : Request.read json = .ok request) (tally : Metrics.Tally) (machine : Machine) (rooted : Rooted machine.disk)
    (apart : Apart service.renders.dataRoot (stagingDirectory service.renders)) :
    Footprint service.renders project machine
        (((service.renderProject project request).run tally).run machine).2 ∧
      ∀ inputs, ((render service.renders inputs).run machine).1.state = .rejected →
        ((render service.renders inputs).run machine).2 = machine := by
  constructor
  · rcases renderProject_course service project request tally machine with
      refused | ⟨inputs, rfl, key, rfl, accepted, rendered⟩
    · rw [refused]
      exact footprint_same _ _ _
    · rw [rendered]
      exact footprint_of_render _ _ _ rooted apart (key_plain key) (read_unstuck read accepted)
  · intro inputs rejected
    exact render_rejected rejected

def sharedService : Service where
  renders := { dataRoot := "/data" }
  store := ⟨"/data"⟩

def sharedMachine : Machine where
  disk := ⟨[(["tmp"], .directory), (["data"], .directory), (["data", "projects"], .directory),
    (["data", "files"], .directory), (["data", "blobs"], .directory),
    (["data", "projects", "blobs.json"], .file "\x7b\"id\":\"blobs\"\x7d".toUTF8),
    (["data", "files", "v.json"], .file ("\x7b\"id\":\"v\",\"filename\":\"v.mp4\",\"content_type\":\"video/mp4\"," ++
      "\"storage_path\":\"blobs/v\"\x7d").toUTF8),
    (["data", "blobs", "v"], .file ⟨#[1]⟩)]⟩
  programs := [("ffmpeg", { behave := fun _ _ => { writes := some ⟨#[0]⟩ } })]

def contentRequest : Json :=
  .ofMembers [("video_file_id", .ofText "v"), ("output_filename", .ofText "../v")]

/-- A project may be called like a directory of the store, and a film like a content. -/
theorem shared_root_footprint : Request.read contentRequest = .ok { source := "v", outputName := some "../v" } ∧
    Rooted sharedMachine.disk ∧ Apart "/data" "/tmp" ∧
    HasProject ⟨"/data"⟩ "blobs" sharedMachine ∧ HasFile ⟨"/data"⟩ "v" sharedMachine ∧
    Footprint sharedService.renders "blobs" sharedMachine
      (((sharedService.renderProject "blobs" { source := "v", outputName := some "../v" }).run {}).run
        sharedMachine).2 := by
  have rooted : Rooted sharedMachine.disk := by
    apply rooted_of_entries
    intro key member
    simp only [sharedMachine, List.map_cons, List.map_nil, List.mem_cons, List.not_mem_nil, or_false] at member
    rcases member with rfl | rfl | rfl | rfl | rfl | rfl | rfl | rfl <;> rfl
  have apart : Apart "/data" "/tmp" := ⟨by decide, by decide⟩
  have location : ∀ file, (((⟨"/data"⟩ : Store).getRecord "v").run.run sharedMachine).1 = .ok (some file) →
      file.location = Store.contentLocation "v" := by
    intro file found
    have known : ((((⟨"/data"⟩ : Store).getRecord "v").run.run sharedMachine).1.toOption.join.map (·.location)) =
        some "blobs/v" := by
      decide +kernel
    rw [found] at known
    exact Option.some.inj known
  have readable : ∀ path, (sharedMachine.disk.read path).toBool = true → ∃ content, sharedMachine.disk.read path = .ok content := by
    intro path there
    cases read : sharedMachine.disk.read path with
    | ok content => exact ⟨content, rfl⟩
    | error fault =>
      rw [read] at there
      cases there
  have read : Request.read contentRequest = .ok { source := "v", outputName := some "../v" } := rfl
  exact ⟨read, rooted, apart, ⟨by decide, readable _ (by decide +kernel)⟩,
    ⟨by decide, readable _ (by decide +kernel), location, readable _ (by decide +kernel)⟩,
    (renderProject_footprint sharedService "blobs" read _ sharedMachine rooted apart).1⟩

def remoteService : Service where
  renders := { dataRoot := "/data", stagingRoot := some "/srv/t/renders" }
  store := ⟨"/data"⟩

/-- The directories on the way to where a render stages are made, and they stay. -/
theorem staging_way_left : Apart "/data" "/srv/t/renders" ∧ ¬ placeOf "/srv/t/renders" <+: ["srv"] ∧
    ¬ Through (remoteService.renders.outputDirectory "blobs") ["srv"] ∧
    sharedMachine.disk.at? ["srv"] = none ∧
    ((((remoteService.renderProject "blobs" { source := "v" }).run {}).run sharedMachine).2.disk.at? ["srv"] matches
      some .directory) := by
  have elsewhere : ¬ Through (remoteService.renders.outputDirectory "blobs") ["srv"] := by
    intro through
    have straight : ".." ∉ Path.parts (remoteService.renders.outputDirectory "blobs") := by decide +kernel
    have apart : ¬ ["srv"] <+: placeOf (remoteService.renders.outputDirectory "blobs") := by decide +kernel
    exact apart (through_straight straight through)
  refine ⟨⟨by decide, by decide⟩, by decide, elsewhere, ?_⟩
  decide +kernel

end Montage.Proofs.RenderFootprint
