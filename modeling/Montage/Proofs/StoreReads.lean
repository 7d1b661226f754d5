import Montage.Proofs.JobFrame
import Montage.Service.Basic

/-! Looking things up in a store. That only reads, and what is found depends on what is read and on
nothing else; so a service that refuses a request has left everything as it was. -/

namespace Montage.Proofs.StoreReads
open JobLogic JobFrame

def Reads : Action → Prop
  | .read _ => True
  | _ => False

theorem perform_reads {action : Action} (reads : Reads action) (machine : Machine) :
    (machine.perform action).2 = machine := by
  cases action with
  | read path => rfl
  | _ => exact reads.elim

theorem run_reads {job : Job α} (confined : Confined Reads job) (machine : Machine) : (job.run machine).2 = machine := by
  have step : ∀ action (middle : Machine), Reads action → middle = machine → (middle.perform action).2 = machine :=
    fun action middle reads same => (perform_reads reads middle).trans same
  exact confined.keeps step rfl

/-- Both machines answer alike where the work reads. -/
def Agree (one two : Machine) : Action → Prop
  | .read path => one.disk.read path = two.disk.read path
  | _ => False

theorem run_agree {one two : Machine} {job : Job α} (confined : Confined (Agree one two) job) :
    (job.run one).1 = (job.run two).1 := by
  induction confined with
  | done value => rfl
  | @act action next asked later ih =>
    cases action with
    | read path =>
      change ((next (one.disk.read path)).run one).1 = ((next (two.disk.read path)).run two).1
      rw [← asked]
      exact ih _
    | _ => exact asked.elim

section Access
variable {allowed : Action → Prop} {store : Store} {id : String}

theorem checkKey_confined (id : String) : Confined allowed (Store.checkKey id).run := by
  unfold Store.checkKey
  split
  · exact .attempt_pure _
  · exact .done _

private theorem readRecord_confined (reader : Json.Reader α) {path : String} (read : allowed (.read path)) :
    Confined allowed (Store.readRecord reader path).run := by
  apply Confined.bind (.ask read)
  intro reply
  split
  · exact .pure _
  · exact .pure _
  · split <;> exact .pure _

theorem getProject_confined (read : allowed (.read (Path.join store.projectDirectory (Store.recordName id)))) :
    Confined allowed (store.getProject id).run :=
  .attempt_bind (checkKey_confined id) fun _ => readRecord_confined _ read

theorem getRecord_confined (read : allowed (.read (Path.join store.recordDirectory (Store.recordName id)))) :
    Confined allowed (store.getRecord id).run :=
  .attempt_bind (checkKey_confined id) fun _ => readRecord_confined _ read

private theorem readContent_confined {file : FileRecord} (read : allowed (.read (Path.join store.root file.location))) :
    Confined allowed (store.readContent id file).run := by
  apply Confined.bind (.ask read)
  intro reply
  split <;> exact .pure _

private theorem map_confined {attempt : ExceptT ε Job α} (change : α → β) (confined : Confined allowed attempt.run) :
    Confined allowed (change <$> attempt).run := by
  rw [map_eq_pure_bind]
  exact .attempt_bind confined fun _ => .attempt_pure _

end Access

private theorem run_read (path : String) (next : Except DiskFault ByteArray → Job α) (machine : Machine) :
    ((Job.ask (.read path) : Job (Except DiskFault ByteArray)) >>= next).run machine =
      (next (machine.disk.read path)).run machine :=
  rfl

theorem readRecord_run (reader : Json.Reader α) (path : String) (machine : Machine) :
    (Store.readRecord reader path).run.run machine = (match machine.disk.read path with
      | .error .notFound => .ok none
      | .error fault => .error (.disk fault)
      | .ok content => match Json.decodeBytes reader content with
        | .error fault => .error (.json fault)
        | .ok value => .ok (some value), machine) := by
  refine (run_read path _ machine).trans ?_
  rcases machine.disk.read path with fault | content
  · cases fault <;> rfl
  · dsimp only
    cases Json.decodeBytes reader content <;> rfl

theorem readContent_run (store : Store) (id : String) (file : FileRecord) (machine : Machine) :
    (store.readContent id file).run.run machine = (match machine.disk.read (Path.join store.root file.location) with
      | .error .notFound => .error (.missingContent id file.location)
      | .error fault => .error (.disk fault)
      | .ok content => .ok ⟨file.name, file.contentType, content⟩, machine) := by
  refine (run_read _ _ machine).trans ?_
  rcases machine.disk.read (Path.join store.root file.location) with fault | content
  · cases fault <;> rfl
  · rfl

theorem getFile_reads (store : Store) (id : String) : Confined Reads (store.getFile id).run := by
  apply Confined.attempt_bind (getRecord_confined trivial)
  intro record
  cases record with
  | none => exact .attempt_pure _
  | some file => exact map_confined _ (readContent_confined trivial)

/-- A file is found as before if its record is and the content that the record names. -/
theorem getFile_agree {store : Store} {id : String} {one two : Machine}
    (record : one.disk.read (Path.join store.recordDirectory (Store.recordName id)) =
      two.disk.read (Path.join store.recordDirectory (Store.recordName id)))
    (content : ∀ file, ((store.getRecord id).run.run one).1 = .ok (some file) →
      one.disk.read (Path.join store.root file.location) = two.disk.read (Path.join store.root file.location)) :
    ((store.getFile id).run.run one).1 = ((store.getFile id).run.run two).1 := by
  have same : ((store.getRecord id).run.run one).1 = ((store.getRecord id).run.run two).1 :=
    run_agree (getRecord_confined record)
  have kept : ∀ machine, ((store.getRecord id).run.run machine).2 = machine :=
    run_reads (getRecord_confined trivial)
  have stays_one := kept one
  have stays_two := kept two
  unfold Store.getFile
  rw [run_attempt_bind, run_attempt_bind]
  generalize (store.getRecord id).run.run one = first at same content stays_one ⊢
  generalize (store.getRecord id).run.run two = second at same stays_two ⊢
  obtain ⟨found, _⟩ := first
  obtain ⟨_, _⟩ := second
  obtain rfl := same
  obtain rfl := stays_one
  obtain rfl := stays_two
  cases found with
  | error fault => rfl
  | ok value =>
    cases value with
    | none => rfl
    | some file => exact run_agree (map_confined _ (readContent_confined (content file rfl)))

section Places
open PathJoin DiskPlaces

/-- The identifiers that a store takes are names of their own. -/
theorem key_plain {id : String} (key : Store.isKey id = true) : Plain id := by
  simp only [Store.isKey, Bool.and_eq_true, Bool.not_eq_true', decide_eq_true_eq, List.all_eq_true] at key
  obtain ⟨⟨⟨filled, not_here⟩, not_up⟩, letters⟩ := key
  refine ⟨by simpa using filled, not_here, not_up, ?_⟩
  intro slash
  exact absurd (letters '/' slash) (by decide)

theorem suffixed_plain {id : String} (plain : Plain id) : Plain (Store.recordName id) := by
  have long : 4 < (Store.recordName id).toList.length := by
    have some_char : id.toList ≠ [] := by simpa using plain.some_char
    have first := List.length_pos_iff.mpr some_char
    simp [Store.recordName]
  have apart : ∀ other : String, other.toList.length ≤ 4 → Store.recordName id ≠ other := by
    rintro other short same
    rw [same] at long
    omega
  refine ⟨apart "" (by decide), apart "." (by decide), apart ".." (by decide), ?_⟩
  have no_slash := plain.no_slash
  simp [Store.recordName, no_slash]

variable (store : Store) {id : String} (key : Store.isKey id = true)
include key

theorem placeOf_projectRecord : placeOf (Path.join store.projectDirectory (Store.recordName id)) =
    placeOf store.root ++ ["projects"] ++ [Store.recordName id] := by
  have directory : Plain "projects" := by decide
  rw [placeOf_join _ (suffixed_plain (key_plain key)), Store.projectDirectory, placeOf_join _ directory]

theorem placeOf_fileRecord : placeOf (Path.join store.recordDirectory (Store.recordName id)) =
    placeOf store.root ++ ["files"] ++ [Store.recordName id] := by
  have directory : Plain "files" := by decide
  rw [placeOf_join _ (suffixed_plain (key_plain key)), Store.recordDirectory, placeOf_join _ directory]

/-- The location that a record names is where the content is kept. -/
theorem join_contentLocation : Path.join store.root (Store.contentLocation id) = Path.join store.contentDirectory id := by
  have directory : Plain "blobs" := by decide
  have cut : Store.contentLocation id = "blobs" ++ "/" ++ id := by
    have slash : "blobs/" = "blobs" ++ "/" := by decide
    rw [Store.contentLocation, slash]
  rw [cut, join_below _ directory (key_plain key), Store.contentDirectory]

theorem placeOf_content : placeOf (Path.join store.root (Store.contentLocation id)) =
    placeOf store.root ++ ["blobs"] ++ [id] := by
  have directory : Plain "blobs" := by decide
  rw [join_contentLocation store key, placeOf_join _ (key_plain key), Store.contentDirectory, placeOf_join _ directory]

end Places

section Service
open Service

theorem lookUp_reads {access : Store.Access (Option α)} (reads : Confined Reads access.run) (what : Missing) :
    Confined Reads (lookUp access what).run := by
  apply Confined.bind reads
  intro result
  split <;> exact .pure _

private theorem lookUpClips_reads (store : Store) (clips : List Clip) :
    Confined Reads (lookUpClips store clips).run := by
  induction clips with
  | nil => exact .attempt_pure _
  | cons clip rest ih =>
    apply Confined.attempt_bind (lookUp_reads (getFile_reads store clip.id) _)
    intro file
    exact .attempt_bind ih fun _ => .attempt_pure _

private theorem gather_reads (store : Store) (project : String) (request : Request) :
    Confined Reads (gather store project request).run := by
  unfold gather
  split
  · apply Confined.attempt_bind (lookUp_reads (getProject_confined trivial) _)
    intro _
    apply Confined.attempt_bind (lookUp_reads (getFile_reads store request.source) _)
    intro source
    exact .attempt_bind (lookUpClips_reads store request.clips) fun _ => .attempt_pure _
  · exact .done _

/-- What is gathered is for the project that was named, under a name that the store takes, and for a request that was
accepted. -/
private theorem gather_project {store : Store} {project : String} {request : Request} {machine after : Machine}
    {inputs : Render.Inputs} (gathered : (gather store project request).run.run machine = (.ok inputs, after)) :
    inputs.project = project ∧ Store.isKey project = true ∧ inputs.request = request ∧ request.violations = [] := by
  unfold gather at gathered
  split at gathered
  next accepted =>
    obtain ⟨_, _, found, gathered⟩ := bind_ok_iff.mp gathered
    obtain ⟨_, _, -, gathered⟩ := bind_ok_iff.mp gathered
    obtain ⟨_, _, -, gathered⟩ := bind_ok_iff.mp gathered
    cases gathered
    refine ⟨rfl, ?_, rfl, List.isEmpty_iff.mp accepted⟩
    cases key : Store.isKey project with
    | true => rfl
    | false =>
      have refused : (lookUp (store.getProject project) (.project project)).run =
          Pure.pure (.error (.store (.invalidKey project))) := by
        have unchecked : Store.checkKey project = Store.Access.fail (.invalidKey project) := by
          rw [Store.checkKey, key, if_neg Bool.false_ne_true]
        rw [lookUp, Store.getProject, unchecked]
        rfl
      rw [refused] at found
      cases found
  · cases gathered

/-- What a service answers once it has gathered what there is. -/
def concluding (service : Service) (tally : Metrics.Tally) :
    Except Refusal Render.Inputs → Job (Http.Response × Metrics.Tally)
  | .error refusal => pure (refusal.response service.settings, tally)
  | .ok inputs => do
    let result ← Render.render service.renders inputs
    pure (.json 200 result.report.toJson, tally.renderStarted.renderEnded result.state)

theorem renderProject_run (service : Service) (project : String) (request : Request) (tally : Metrics.Tally) :
    (service.renderProject project request).run tally =
      (gather service.store project request).run >>= concluding service tally := by
  simp only [renderProject, StateT.run_bind, StateT.run_monadLift, bind_assoc, pure_bind]
  congr 1
  funext result
  cases result <;> simp [concluding]

/-- A request is refused, and nothing is different, or its project is rendered. -/
theorem renderProject_course (service : Service) (project : String) (request : Request) (tally : Metrics.Tally)
    (machine : Machine) :
    (((service.renderProject project request).run tally).run machine).2 = machine ∨
      ∃ inputs, inputs.project = project ∧ Store.isKey project = true ∧ inputs.request = request ∧
        request.violations = [] ∧
        (((service.renderProject project request).run tally).run machine).2 =
          ((Render.render service.renders inputs).run machine).2 := by
  have left := run_reads (gather_reads service.store project request) machine
  have course : ((service.renderProject project request).run tally).run machine =
      (concluding service tally ((gather service.store project request).run.run machine).1).run machine := by
    rw [renderProject_run]
    refine (run_bind _ (concluding service tally) machine).trans ?_
    rw [left]
  rw [course]
  rcases gathered : (gather service.store project request).run.run machine with ⟨result, after⟩
  cases result with
  | error refusal => exact .inl rfl
  | ok inputs =>
    obtain ⟨same, key, asked, accepted⟩ := gather_project gathered
    exact .inr ⟨inputs, same, key, asked, accepted, congrArg Prod.snd (run_bind (Render.render service.renders inputs) _ machine)⟩

end Service

end Montage.Proofs.StoreReads
