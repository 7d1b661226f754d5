import Mathlib.Data.List.Forall2
import Montage.Proofs.JobTrouble

/-! What a request to render meets before anything is rendered. It has to be valid, and what it names has to be
there; the first of these that is not so decides the answer, and then nothing was written or started. -/

namespace Montage.Proofs.ServicePreflight
open JobFrame JobTrouble StoreReads Service

/-- What comes of looking for a record, given what reading files gives. -/
inductive RecordSought (reads : String → Except DiskFault ByteArray) (reader : Json.Reader α) (directory id : String) :
    Except Store.Fault (Option α) → Prop
  | invalidKey (refused : Store.isKey id = false) :
    RecordSought reads reader directory id (.error (.invalidKey id))
  | absent (key : Store.isKey id = true)
      (missing : reads (Path.join directory (Store.recordName id)) = .error .notFound) :
    RecordSought reads reader directory id (.ok none)
  | unreadable {fault : DiskFault} (key : Store.isKey id = true)
      (broken : reads (Path.join directory (Store.recordName id)) = .error fault) (present : fault ≠ .notFound) :
    RecordSought reads reader directory id (.error (.disk fault))
  | unsuitable {text : ByteArray} {fault : Json.Fault} (key : Store.isKey id = true)
      (read : reads (Path.join directory (Store.recordName id)) = .ok text)
      (wrong : Json.decodeBytes reader text = .error fault) :
    RecordSought reads reader directory id (.error (.json fault))
  | found {text : ByteArray} {value : α} (key : Store.isKey id = true)
      (read : reads (Path.join directory (Store.recordName id)) = .ok text)
      (decoded : Json.decodeBytes reader text = .ok value) :
    RecordSought reads reader directory id (.ok (some value))

/-- What comes of looking for a file: its record comes first, and then the content that the record names. -/
inductive FileSought (reads : String → Except DiskFault ByteArray) (store : Store) (id : String) :
    Except Store.Fault (Option Store.StoredFile) → Prop
  | unrecorded {fault : Store.Fault} (record : RecordSought reads FileRecord.read store.recordDirectory id (.error fault)) :
    FileSought reads store id (.error fault)
  | absent (record : RecordSought reads FileRecord.read store.recordDirectory id (.ok none)) :
    FileSought reads store id (.ok none)
  | corrupt {file : FileRecord} (record : RecordSought reads FileRecord.read store.recordDirectory id (.ok (some file)))
      (missing : reads (Path.join store.root file.location) = .error .notFound) :
    FileSought reads store id (.error (.missingContent id file.location))
  | unreadable {file : FileRecord} {fault : DiskFault}
      (record : RecordSought reads FileRecord.read store.recordDirectory id (.ok (some file)))
      (broken : reads (Path.join store.root file.location) = .error fault) (present : fault ≠ .notFound) :
    FileSought reads store id (.error (.disk fault))
  | found {file : FileRecord} {content : ByteArray}
      (record : RecordSought reads FileRecord.read store.recordDirectory id (.ok (some file)))
      (read : reads (Path.join store.root file.location) = .ok content) :
    FileSought reads store id (.ok (some ⟨file.name, file.contentType, content⟩))

/-- What is found of something that a request names. -/
@[reducible] def Find : Missing → Type
  | .project _ => Project
  | .source _ | .clip _ => Store.StoredFile

def Sought (reads : String → Except DiskFault ByteArray) (store : Store) :
    (what : Missing) → Except Store.Fault (Option (Find what)) → Prop
  | .project id => RecordSought reads Project.read store.projectDirectory id
  | .source id | .clip id => FileSought reads store id

def named (project : String) (request : Request) : List Missing :=
  .project project :: .source request.source :: request.clips.map fun clip => .clip clip.id

/-- The status of an answer where something was looked for in vain. -/
def vainStatus : Except Store.Fault (Option α) → Option Nat
  | .error (.invalidKey _) => some 400
  | .ok none => some 404
  | .error (.missingContent _ _) | .error (.json _) | .error (.disk _) => some 500
  | .ok (some _) => none

/-- The first thing on a list that is looked for in vain, with the status of the answer. -/
inductive Vain (reads : String → Except DiskFault ByteArray) (store : Store) : List Missing → Nat → Prop
  | here {what : Missing} {rest : List Missing} {result : Except Store.Fault (Option (Find what))} {status : Nat}
      (sought : Sought reads store what result) (vain : vainStatus result = some status) :
    Vain reads store (what :: rest) status
  | later {what : Missing} {rest : List Missing} {value : Find what} {status : Nat}
      (found : Sought reads store what (.ok (some value))) (vain : Vain reads store rest status) :
    Vain reads store (what :: rest) status

abbrev ClipsFound (reads : String → Except DiskFault ByteArray) (store : Store) : List Clip → List Render.Upload → Prop :=
  List.Forall₂ fun clip upload => ∃ file, FileSought reads store clip.id (.ok (some file)) ∧
    upload = ⟨file.name, file.content⟩

/-- How a request to render is answered, and what is left. -/
inductive Answered (service : Service) (project : String) (request : Request) (tally : Metrics.Tally)
    (trouble : Trouble) (before : Machine) : (Http.Response × Metrics.Tally) × Machine → Prop
  | invalid {response : Http.Response} (broken : request.violations ≠ []) (status : response.status = 400) :
    Answered service project request tally trouble before ((response, tally), before)
  | vain {response : Http.Response} (valid : request.violations = [])
      (vain : Vain (reading trouble before) service.store (named project request) response.status) :
    Answered service project request tally trouble before ((response, tally), before)
  | rendered {owner : Project} {source : Store.StoredFile} {clips : List Render.Upload} {result : Render.Result}
      {after : Machine} (valid : request.violations = [])
      (project_found : RecordSought (reading trouble before) Project.read service.store.projectDirectory project
        (.ok (some owner)))
      (source_found : FileSought (reading trouble before) service.store request.source (.ok (some source)))
      (clips_found : ClipsFound (reading trouble before) service.store request.clips clips)
      (ran : runAmid trouble
        (Render.render service.renders ⟨project, request, ⟨source.name, source.content⟩, clips⟩) before = (result, after)) :
    Answered service project request tally trouble before
      ((.json 200 result.report.toJson, tally.renderStarted.renderEnded result.state), after)

variable {trouble : Trouble} {machine : Machine} {store : Store}

private theorem runAmid_ask (path : String) {next : Except DiskFault ByteArray → Job α} :
    runAmid trouble ((Job.ask (.read path) : Job (Except DiskFault ByteArray)) >>= next) machine =
      runAmid trouble (next (reading trouble machine path)) machine := by
  have reads : Reads (.read path) := trivial
  have kept : (performAmid trouble machine (.read path)).2 = machine := performAmid_reads reads machine
  refine (runAmid_bind _ next machine).trans ?_
  change runAmid trouble (next (reading trouble machine path)) (performAmid trouble machine (.read path)).2 = _
  rw [kept]

private theorem checkKey_amid (id : String) : runAmid trouble (Store.checkKey id).run machine =
    (if Store.isKey id then .ok () else .error (.invalidKey id), machine) := by
  unfold Store.checkKey
  split <;> rfl

private theorem record_sought (reader : Json.Reader α) (directory id : String) :
    RecordSought (reading trouble machine) reader directory id
      (runAmid trouble (Store.checkKey id >>= fun _ =>
        Store.readRecord reader (Path.join directory (Store.recordName id))).run machine).1 := by
  rw [runAmid_attempt_bind, checkKey_amid]
  cases key : Store.isKey id with
  | false => exact .invalidKey key
  | true =>
    simp only [if_true]
    rw [Store.readRecord, ExceptT.run_mk, runAmid_ask]
    generalize read : reading trouble machine (Path.join directory (Store.recordName id)) = reply
    cases reply with
    | error fault =>
      by_cases missing : fault = .notFound
      · subst missing
        exact .absent key read
      · simp only
        exact .unreadable key read missing
    | ok content =>
      simp only
      split
      next fault wrong => exact .unsuitable key read wrong
      next value decoded => exact .found key read decoded

private theorem file_sought (id : String) :
    FileSought (reading trouble machine) store id (runAmid trouble (store.getFile id).run machine).1 := by
  have record : RecordSought (reading trouble machine) FileRecord.read store.recordDirectory id
    (runAmid trouble (store.getRecord id).run machine).1 := record_sought _ _ _
  have confined : Confined Reads (store.getRecord id).run := getRecord_confined trivial
  have kept : (runAmid trouble (store.getRecord id).run machine).2 = machine := runAmid_reads confined machine
  unfold Store.getFile
  rw [runAmid_attempt_bind]
  generalize runAmid trouble (store.getRecord id).run machine = ran at record kept
  obtain ⟨result, after⟩ := ran
  obtain rfl : after = machine := kept
  cases result with
  | error fault => exact .unrecorded record
  | ok found =>
    cases found with
    | none => exact .absent record
    | some file =>
      simp only [map_eq_pure_bind]
      rw [runAmid_attempt_bind, Store.readContent, ExceptT.run_mk, runAmid_ask]
      generalize read : reading trouble after (Path.join store.root file.location) = reply
      cases reply with
      | error fault =>
        by_cases missing : fault = .notFound
        · subst missing
          exact .corrupt record read
        · simp only
          exact .unreadable record read missing
      | ok content => exact .found record read

theorem lookUp_told {access : Store.Access (Option α)} {sought : Except Store.Fault (Option α) → Prop} (what : Missing)
    (reads : Confined Reads access.run) (told : sought (runAmid trouble access.run machine).1) :
    (∃ value, runAmid trouble (lookUp access what).run machine = (.ok value, machine) ∧ sought (.ok (some value))) ∨
      ∃ refusal result, runAmid trouble (lookUp access what).run machine = (.error refusal, machine) ∧
        sought result ∧ vainStatus result = some refusal.status := by
  have kept : (runAmid trouble access.run machine).2 = machine := runAmid_reads reads machine
  unfold lookUp
  rw [ExceptT.run_mk, runAmid_bind, kept]
  generalize (runAmid trouble access.run machine).1 = result at told
  cases result with
  | error fault =>
    refine .inr ⟨.store fault, .error fault, rfl, told, ?_⟩
    cases fault <;> rfl
  | ok found =>
    cases found with
    | none => exact .inr ⟨.missing what, .ok none, rfl, told, rfl⟩
    | some value => exact .inl ⟨value, rfl, told⟩

private theorem lookUpClips_told (clips : List Clip) :
    (∃ uploads, runAmid trouble (lookUpClips store clips).run machine = (.ok uploads, machine) ∧
        ClipsFound (reading trouble machine) store clips uploads) ∨
      ∃ refusal, runAmid trouble (lookUpClips store clips).run machine = (.error refusal, machine) ∧
        Vain (reading trouble machine) store (clips.map fun clip => .clip clip.id) refusal.status := by
  induction clips with
  | nil => exact .inl ⟨[], rfl, .nil⟩
  | cons clip rest ih =>
    unfold lookUpClips
    rw [runAmid_attempt_bind]
    rcases lookUp_told (.clip clip.id) (getFile_reads store clip.id) (file_sought clip.id) with
      ⟨file, looked, found⟩ | ⟨refusal, result, looked, sought, status⟩
    · rw [looked]
      simp only
      rw [runAmid_attempt_bind]
      rcases ih with ⟨uploads, later, all⟩ | ⟨refusal, later, vain⟩
      · rw [later]
        exact .inl ⟨upload file :: uploads, rfl, .cons ⟨file, found, rfl⟩ all⟩
      · rw [later]
        exact .inr ⟨refusal, rfl, .later found vain⟩
    · rw [looked]
      exact .inr ⟨refusal, rfl, .here sought status⟩

/-- What comes of gathering the inputs of a render. -/
inductive Gathered (reads : String → Except DiskFault ByteArray) (store : Store) (project : String) (request : Request) :
    Except Refusal Render.Inputs → Prop
  | invalid (broken : request.violations ≠ []) : Gathered reads store project request (.error (.invalid request.violations))
  | vain {refusal : Refusal} (valid : request.violations = []) (vain : Vain reads store (named project request) refusal.status) :
    Gathered reads store project request (.error refusal)
  | found {owner : Project} {source : Store.StoredFile} {clips : List Render.Upload} (valid : request.violations = [])
      (project_found : RecordSought reads Project.read store.projectDirectory project (.ok (some owner)))
      (source_found : FileSought reads store request.source (.ok (some source)))
      (clips_found : ClipsFound reads store request.clips clips) :
    Gathered reads store project request (.ok ⟨project, request, upload source, clips⟩)

private theorem gather_told (project : String) (request : Request) :
    ∃ result, runAmid trouble (gather store project request).run machine = (result, machine) ∧
      Gathered (reading trouble machine) store project request result := by
  unfold gather
  cases violations : request.violations with
  | cons first others =>
    have broken : request.violations ≠ [] := by simp [violations]
    have invalid : Gathered (reading trouble machine) store project request (.error (.invalid request.violations)) :=
      .invalid broken
    rw [violations] at invalid
    exact ⟨_, rfl, invalid⟩
  | nil =>
    simp only [List.isEmpty_nil, if_true]
    rw [runAmid_attempt_bind]
    rcases lookUp_told (.project project) (getProject_confined trivial) (record_sought _ _ _) with
      ⟨owner, looked, project_found⟩ | ⟨refusal, result, looked, sought, status⟩
    · rw [looked]
      simp only
      rw [runAmid_attempt_bind]
      rcases lookUp_told (.source request.source) (getFile_reads store request.source) (file_sought request.source) with
        ⟨source, looked, source_found⟩ | ⟨refusal, result, looked, sought, status⟩
      · rw [looked]
        simp only
        rw [runAmid_attempt_bind]
        rcases lookUpClips_told request.clips with ⟨uploads, looked, clips_found⟩ | ⟨refusal, looked, vain⟩
        · rw [looked]
          exact ⟨_, rfl, .found violations project_found source_found clips_found⟩
        · rw [looked]
          exact ⟨_, rfl, .vain violations (.later project_found (.later source_found vain))⟩
      · rw [looked]
        exact ⟨_, rfl, .vain violations (.later project_found (.here sought status))⟩
    · rw [looked]
      exact ⟨_, rfl, .vain violations (.here sought status)⟩

/-- A request to render is answered as its validity and the first look-up in vain say, however the disk behaves. If it
is refused, everything is as it was and nothing was started; if not, the render runs once, on what was found. -/
theorem renderProject_preflight (service : Service) (project : String) (request : Request) (tally : Metrics.Tally)
    (machine : Machine) :
    (∀ trouble, Answered service project request tally trouble machine
      (runAmid trouble ((service.renderProject project request).run tally) machine)) ∧
    Answered service project request tally (fun _ => none) machine
      (((service.renderProject project request).run tally).run machine) := by
  have amid : ∀ trouble, Answered service project request tally trouble machine
      (runAmid trouble ((service.renderProject project request).run tally) machine) := by
    intro trouble
    obtain ⟨result, gathered, told⟩ := @gather_told trouble machine service.store project request
    rw [renderProject_run, runAmid_bind, gathered]
    cases told with
    | invalid broken => exact .invalid broken rfl
    | vain valid vain => exact .vain valid vain
    | found valid project_found source_found clips_found =>
      simp only [concluding]
      rw [runAmid_bind]
      exact .rendered valid project_found source_found clips_found rfl
  refine ⟨amid, ?_⟩
  rw [← runAmid_calm]
  exact amid _

end Montage.Proofs.ServicePreflight
