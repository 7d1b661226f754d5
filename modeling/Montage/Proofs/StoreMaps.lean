import Montage.Proofs.StoreShelves

/-! A store is two maps, one from identifiers to projects and one from identifiers to files. Whatever was put into it,
and in whatever order, each identifier gives what was put under it last. Identifiers that could lead elsewhere are
refused, and nothing is written outside of the three directories of the store. -/

namespace Montage.Proofs.StoreMaps
open JobLogic JobFrame DiskPlaces PathJoin StoreReads StoreKept ModelsWritten StoreShelves

inductive Put where
  | project (project : Project)
  | file (id : String) (file : Store.StoredFile)

def Put.id : Put → String
  | .project given => given.id
  | .file id _ => id

def Put.work (store : Store) : Put → Store.Access Unit
  | .project given => store.putProject given
  | .file id given => do
    let _ ← store.putFile id given.name given.contentType given.content

/-- Puts one thing after the other into a store, up to the first that fails. -/
def putAll (store : Store) : List Put → Store.Access Unit
  | [] => pure ()
  | put :: rest => do
    put.work store
    putAll store rest

def lastProject (puts : List Put) (id : String) : Option Project :=
  puts.reverse.findSome? fun
    | .project project => if project.id = id then some project else none
    | .file _ _ => none

def lastFile (puts : List Put) (id : String) : Option Store.StoredFile :=
  puts.reverse.findSome? fun
    | .project _ => none
    | .file other file => if other = id then some file else none

/-- What a store answers to each identifier: what was put last under it, and nothing if nothing ever was. `Fits` stands
for a file system that does not fail: it takes a path unless that, or a name in it, is too long. -/
structure Answers (store : Store) (puts : List Put) (machine : Machine) : Prop where
  project : ∀ id project, lastProject puts id = some project →
    (store.getProject id).run.run machine = (.ok (some project), machine)
  noProject : ∀ id, Store.isKey id = true → lastProject puts id = none →
    Fits (shelved store "projects" (Store.recordName id)) → (store.getProject id).run.run machine = (.ok none, machine)
  record : ∀ id file, lastFile puts id = some file → (store.getRecord id).run.run machine =
    (.ok (some { id, name := file.name, contentType := file.contentType, location := "blobs/" ++ id,
                 size := .ofNat file.content.size }), machine)
  noRecord : ∀ id, Store.isKey id = true → lastFile puts id = none →
    Fits (shelved store "files" (Store.recordName id)) → (store.getRecord id).run.run machine = (.ok none, machine)
  file : ∀ id file, lastFile puts id = some file → (store.getFile id).run.run machine = (.ok (some file), machine)
  noFile : ∀ id, Store.isKey id = true → lastFile puts id = none →
    Fits (shelved store "files" (Store.recordName id)) → (store.getFile id).run.run machine = (.ok none, machine)

/-- An identifier that could lead elsewhere: empty, of dots, or with a character that is no letter, digit, dash,
underscore or dot. -/
def Improper (id : String) : Prop :=
  id = "" ∨ id = "." ∨ id = ".." ∨ ∃ c ∈ id.toList,
    ¬ ('a' ≤ c ∧ c ≤ 'z' ∨ 'A' ≤ c ∧ c ≤ 'Z' ∨ '0' ≤ c ∧ c ≤ '9' ∨ c = '-' ∨ c = '_' ∨ c = '.')

/-- Every operation refuses an identifier, and leaves everything as it was. -/
structure Refuses (store : Store) (id : String) (machine : Machine) : Prop where
  putProject : ∀ project, project.id = id →
    (store.putProject project).run.run machine = (.error (.invalidKey id), machine)
  putFile : ∀ name contentType content,
    (store.putFile id name contentType content).run.run machine = (.error (.invalidKey id), machine)
  getProject : (store.getProject id).run.run machine = (.error (.invalidKey id), machine)
  getRecord : (store.getRecord id).run.run machine = (.error (.invalidKey id), machine)
  getFile : (store.getFile id).run.run machine = (.error (.invalidKey id), machine)

/-- A step that writes a file directly in one of the directories of a store, or makes one of these. -/
def Shelves (store : Store) : Action → Prop
  | .write path _ => ∃ directory ∈ ["projects", "files", "blobs"], ∃ name, Plain name ∧
      path = Path.join (Path.join store.root directory) name ∧ placeOf path = placeOf store.root ++ [directory, name]
  | .makeDirectories path => ∃ directory ∈ ["projects", "files", "blobs"], path = Path.join store.root directory
  | _ => False

section Improper
variable {id : String}

theorem isKeyChar_iff (c : Char) : Store.isKeyChar c = true ↔
    'a' ≤ c ∧ c ≤ 'z' ∨ 'A' ≤ c ∧ c ≤ 'Z' ∨ '0' ≤ c ∧ c ≤ '9' ∨ c = '-' ∨ c = '_' ∨ c = '.' := by
  simp only [Store.isKeyChar, Char.isAlphanum, Char.isAlpha, Char.isUpper, Char.isLower, Char.isDigit, Bool.or_eq_true,
    Bool.and_eq_true, decide_eq_true_eq, Char.le_def]
  tauto

theorem isKey_false_iff : Store.isKey id = false ↔ Improper id := by
  simp only [Store.isKey, Improper, ← isKeyChar_iff, Bool.and_eq_false_iff, List.all_eq_false, Bool.not_eq_false',
    decide_eq_false_iff_not, not_not, String.isEmpty_iff, or_assoc]

private theorem improper_refused (store : Store) (improper : Improper id) (machine : Machine) :
    Refuses store id machine := by
  have refused : Store.checkKey id = Store.Access.fail (.invalidKey id) := by
    rw [Store.checkKey, isKey_false_iff.mpr improper, if_neg Bool.false_ne_true]
  constructor
  case putProject =>
    rintro project rfl
    rw [Store.putProject, refused]
    rfl
  case putFile =>
    intro name contentType content
    rw [Store.putFile, refused]
    rfl
  case getProject =>
    rw [Store.getProject, refused]
    rfl
  case getRecord =>
    rw [Store.getRecord, refused]
    rfl
  case getFile =>
    rw [Store.getFile, Store.getRecord, refused]
    rfl

end Improper

section Shelving
variable (store : Store)

private theorem room_plain {directory : String} (room : directory ∈ ["projects", "files", "blobs"]) :
    Plain directory := by
  have rooms : ∀ directory ∈ ["projects", "files", "blobs"], Plain directory := by decide
  exact rooms directory room

theorem writeInto_shelves {directory name : String} (room : directory ∈ ["projects", "files", "blobs"])
    (plain : Plain name) (content : ByteArray) :
    Confined (Shelves store) (Store.writeInto (Path.join store.root directory) name content).run := by
  apply Confined.attempt_bind (disk_confined (.ask ⟨directory, room, rfl⟩))
  intro _
  exact disk_confined (.ask ⟨directory, room, name, plain, rfl, placeOf_shelved (room_plain room) plain⟩)

theorem keyed_confined {allowed : Action → Prop} {id : String} {next : Store.Access α}
    (later : Store.isKey id = true → Confined allowed next.run) :
    Confined allowed (Store.checkKey id >>= fun _ => next).run := by
  cases key : Store.isKey id with
  | true => exact .attempt_bind (checkKey_confined id) fun _ => later key
  | false =>
    rw [Store.checkKey, key]
    exact .done _

private theorem put_shelves (put : Put) : Confined (Shelves store) (put.work store).run := by
  cases put with
  | project given =>
    exact keyed_confined fun key => writeInto_shelves store (by decide) (suffixed_plain (key_plain key)) _
  | file id given =>
    refine Confined.attempt_bind (keyed_confined fun key => ?_) fun _ => .attempt_pure _
    refine Confined.attempt_bind (writeInto_shelves store (by decide) (key_plain key) _) fun _ => ?_
    refine Confined.attempt_bind (writeInto_shelves store (by decide) (suffixed_plain (key_plain key)) _) fun _ => ?_
    exact .attempt_pure _

end Shelving

section Tables

def Put.keep (put : Put) (table : Table) : Table :=
  match put with
  | .project given => table.keep "projects" (Store.recordName given.id) given.toJson.pretty.toUTF8
  | .file id given =>
    (table.keep "blobs" id given.content).keep "files" (Store.recordName id)
      (Store.fileRecord id given.name given.contentType given.content).toJson.pretty.toUTF8

/-- The files that are left of what was put into a store that was empty. -/
def tableOf (puts : List Put) : Table :=
  puts.foldl (fun table put => put.keep table) fun _ _ => none

theorem recordName_inj {id other : String} : Store.recordName id = Store.recordName other ↔ id = other := by
  simp [Store.recordName, ← String.toList_inj]

variable (puts : List Put) (id : String)

private theorem lastProject_concat (put : Put) : lastProject (puts ++ [put]) id = match put with
    | .project given => if given.id = id then some given else lastProject puts id
    | .file _ _ => lastProject puts id := by
  cases put with
  | project given => by_cases same : given.id = id <;> simp [lastProject, same]
  | file other given => simp [lastProject]

private theorem lastFile_concat (put : Put) : lastFile (puts ++ [put]) id = match put with
    | .project _ => lastFile puts id
    | .file other given => if other = id then some given else lastFile puts id := by
  cases put with
  | project given => simp [lastFile]
  | file other given => by_cases same : other = id <;> simp [lastFile, same]

theorem tableOf_concat (put : Put) : tableOf (puts ++ [put]) = put.keep (tableOf puts) := by
  simp [tableOf]

private theorem tableOf_projects : tableOf puts "projects" (Store.recordName id) =
    (lastProject puts id).map fun project => project.toJson.pretty.toUTF8 := by
  induction puts using List.reverseRecOn with
  | nil => rfl
  | append_singleton puts put ih =>
    rw [tableOf_concat, lastProject_concat]
    cases put with
    | project given =>
      simp only [Put.keep, Table.keep, recordName_inj, true_and, eq_comm (a := id)]
      split
      next same => rfl
      next different => exact ih
    | file other given => exact ih

private theorem tableOf_records : tableOf puts "files" (Store.recordName id) = (lastFile puts id).map fun file =>
    (Store.fileRecord id file.name file.contentType file.content).toJson.pretty.toUTF8 := by
  induction puts using List.reverseRecOn with
  | nil => rfl
  | append_singleton puts put ih =>
    rw [tableOf_concat, lastFile_concat]
    cases put with
    | project given => exact ih
    | file other given =>
      simp only [Put.keep, Table.keep, recordName_inj, true_and, eq_comm (a := id)]
      split
      next same =>
        subst same
        rfl
      next different => exact ih

private theorem tableOf_contents : tableOf puts "blobs" id = (lastFile puts id).map (·.content) := by
  induction puts using List.reverseRecOn with
  | nil => rfl
  | append_singleton puts put ih =>
    rw [tableOf_concat, lastFile_concat]
    cases put with
    | project given => exact ih
    | file other given =>
      have room : "blobs" ≠ "files" := by decide
      simp only [Put.keep, Table.keep, room, false_and, if_false, true_and, eq_comm (a := id)]
      split
      next same => rfl
      next different => exact ih

end Tables

section Running
variable {store : Store} {table : Table} {machine after : Machine}

private theorem holds_put {put : Put} (holds : Holds store table machine.disk)
    (done : (put.work store).run.run machine = (.ok (), after)) :
    Store.isKey put.id = true ∧ Holds store (put.keep table) after.disk := by
  cases put with
  | project given =>
    obtain ⟨_, _, checked, written⟩ := bind_ok_iff.mp done
    obtain ⟨key, rfl⟩ := checkKey_ok_iff.mp checked
    exact ⟨key, holds_written holds (by decide) (suffixed_plain (key_plain key)) written⟩
  | file id given =>
    obtain ⟨_, _, put, done⟩ := bind_ok_iff.mp done
    obtain ⟨-, rfl⟩ := pure_ok_iff.mp done
    obtain ⟨_, _, checked, put⟩ := bind_ok_iff.mp put
    obtain ⟨key, rfl⟩ := checkKey_ok_iff.mp checked
    obtain ⟨_, middle, content_written, put⟩ := bind_ok_iff.mp put
    obtain ⟨_, last, record_written, ended⟩ := bind_ok_iff.mp put
    obtain ⟨-, rfl⟩ := pure_ok_iff.mp ended
    have contents := holds_written holds (by decide) (key_plain key) content_written
    exact ⟨key, holds_written contents (by decide) (suffixed_plain (key_plain key)) record_written⟩

private theorem holds_putAll (before : List Put) {puts : List Put} (keys : ∀ put ∈ before, Store.isKey put.id = true)
    (holds : Holds store (tableOf before) machine.disk)
    (done : (putAll store puts).run.run machine = (.ok (), after)) :
    (∀ put ∈ before ++ puts, Store.isKey put.id = true) ∧ Holds store (tableOf (before ++ puts)) after.disk := by
  induction puts generalizing before machine with
  | nil =>
    obtain ⟨-, rfl⟩ := pure_ok_iff.mp done
    rw [List.append_nil]
    exact ⟨keys, holds⟩
  | cons put rest ih =>
    obtain ⟨_, middle, first, later⟩ := bind_ok_iff.mp done
    obtain ⟨key, held⟩ := holds_put holds first
    rw [← tableOf_concat] at held
    rw [List.append_cons]
    exact ih _ (List.forall_mem_append.mpr ⟨keys, List.forall_mem_singleton.mpr key⟩) held later

end Running

/-- Whether the time at which a project was created is read back. -/
def Survives (project : Project) : Prop :=
  ∀ created ∈ project.created, Instant.read created.toJson = .ok created

private theorem mem_of_lastProject {puts : List Put} {id : String} {project : Project}
    (last : lastProject puts id = some project) : .project project ∈ puts ∧ project.id = id := by
  obtain ⟨put, member, given⟩ := List.exists_of_findSome?_eq_some last
  cases put with
  | project other =>
    obtain ⟨rfl, same⟩ := Option.ite_none_right_eq_some.mp given
    cases same
    exact ⟨List.mem_reverse.mp member, rfl⟩
  | file => cases given

private theorem mem_of_lastFile {puts : List Put} {id : String} {file : Store.StoredFile}
    (last : lastFile puts id = some file) : .file id file ∈ puts := by
  obtain ⟨put, member, given⟩ := List.exists_of_findSome?_eq_some last
  cases put with
  | project => cases given
  | file other =>
    obtain ⟨rfl, same⟩ := Option.ite_none_right_eq_some.mp given
    cases same
    exact List.mem_reverse.mp member

section Reading
variable {store : Store} {id : String} {machine : Machine}

private theorem readRecord_missing (reader : Json.Reader α) {path : String}
    (missing : machine.disk.read path = .error .notFound) :
    (Store.readRecord reader path).run.run machine = (.ok none, machine) := by
  rw [readRecord_run, missing]

theorem keyed_run (key : Store.isKey id = true) (next : Store.Access α) :
    (Store.checkKey id >>= fun _ => next).run.run machine = next.run.run machine := by
  rw [Store.checkKey, if_pos key]
  rfl

theorem getFile_none (missing : (store.getRecord id).run.run machine = (.ok none, machine)) :
    (store.getFile id).run.run machine = (.ok none, machine) :=
  bind_ok_iff.mpr ⟨none, machine, missing, rfl⟩

theorem getFile_some {file : FileRecord} {content : ByteArray}
    (found : (store.getRecord id).run.run machine = (.ok (some file), machine))
    (there : machine.disk.read (Path.join store.root file.location) = .ok content) :
    (store.getFile id).run.run machine = (.ok (some ⟨file.name, file.contentType, content⟩), machine) := by
  refine bind_ok_iff.mpr ⟨some file, machine, found, ?_⟩
  simp only [map_eq_pure_bind]
  have held : (store.readContent id file).run.run machine = (.ok ⟨file.name, file.contentType, content⟩, machine) := by
    rw [readContent_run, there]
  exact bind_ok_iff.mpr ⟨_, machine, held, rfl⟩

end Reading

private theorem answers_of_holds {store : Store} {puts : List Put} {machine : Machine}
    (keys : ∀ put ∈ puts, Store.isKey put.id = true) (survive : ∀ project, .project project ∈ puts → Survives project)
    (holds : Holds store (tableOf puts) machine.disk) : Answers store puts machine := by
  have projects : Plain "projects" := by decide
  have files : Plain "files" := by decide
  have blobs : Plain "blobs" := by decide
  have records_plain {id : String} (key : Store.isKey id = true) : Plain (Store.recordName id) :=
    suffixed_plain (key_plain key)
  have record {id : String} {file : Store.StoredFile} (last : lastFile puts id = some file) :
      (store.getRecord id).run.run machine =
        (.ok (some (Store.fileRecord id file.name file.contentType file.content)), machine) := by
    have key : Store.isKey id = true := keys _ (mem_of_lastFile last)
    have there := holds.kept files (records_plain key) ((tableOf_records puts id).trans (by rw [last]; rfl))
    exact getRecord_written key there
  have noRecord {id : String} (key : Store.isKey id = true) (last : lastFile puts id = none)
      (fits : Fits (shelved store "files" (Store.recordName id))) :
      (store.getRecord id).run.run machine = (.ok none, machine) := by
    have absent : tableOf puts "files" (Store.recordName id) = none := (tableOf_records puts id).trans (by rw [last]; rfl)
    exact (keyed_run key _).trans (readRecord_missing _ (read_free holds files (records_plain key) absent fits))
  constructor
  case project =>
    intro id project last
    obtain ⟨member, rfl⟩ := mem_of_lastProject last
    have key : Store.isKey project.id = true := keys _ member
    have there := holds.kept projects (records_plain key) ((tableOf_projects puts _).trans (by rw [last]; rfl))
    have written := project_written (survive project member)
    exact (keyed_run key _).trans (readRecord_written written.whole written.read there)
  case noProject =>
    intro id key last fits
    have absent : tableOf puts "projects" (Store.recordName id) = none :=
      (tableOf_projects puts id).trans (by rw [last]; rfl)
    exact (keyed_run key _).trans (readRecord_missing _ (read_free holds projects (records_plain key) absent fits))
  case record => exact fun id file last => record last
  case noRecord => exact fun id key last fits => noRecord key last fits
  case file =>
    intro id file last
    have key : Store.isKey id = true := keys _ (mem_of_lastFile last)
    have there := holds.kept blobs (key_plain key) ((tableOf_contents puts id).trans (by rw [last]; rfl))
    rw [shelved, ← Store.contentDirectory, ← join_contentLocation store key] at there
    exact getFile_some (record last) there
  case noFile => exact fun id key last fits => getFile_none (noRecord key last fits)

/-- Of what was put into a store that was empty each identifier gives what came last under it, identifiers that could
lead elsewhere are refused, and whatever is put, files are written only directly below the three directories. -/
theorem store_maps (store : Store) :
    (∀ puts machine after, EmptyRoot store machine.disk → (∀ project, .project project ∈ puts → Survives project) →
        (putAll store puts).run.run machine = (.ok (), after) → Answers store puts after) ∧
      (∀ id machine, Improper id → Refuses store id machine) ∧
      ∀ put : Put, Confined (Shelves store) (put.work store).run := by
  refine ⟨fun puts machine after root survive done => ?_, fun id machine improper => ?_, fun put => ?_⟩
  · obtain ⟨keys, holds⟩ := holds_putAll [] nofun (holds_empty root) done
    exact answers_of_holds keys survive holds
  · exact improper_refused store improper machine
  · exact put_shelves store put

/-- A project and a file of one name, and the project once more with another title. -/
def trip : List Put :=
  [.project { id := "trip", name := "Film", created := some ⟨1709993107, 250000000⟩ },
    .file "trip" ⟨"a.mp4", "video/mp4", "data".toUTF8⟩,
    .project { id := "trip", name := "Trip", created := some ⟨1709993107, 250000000⟩ }]

theorem trip_answers : EmptyRoot ⟨"/data"⟩ {} ∧ (∀ project, .project project ∈ trip → Survives project) ∧
    ∃ after, (putAll ⟨"/data"⟩ trip).run.run {} = (.ok (), after) ∧ Answers ⟨"/data"⟩ trip after ∧
      Refuses ⟨"/data"⟩ ".." after := by
  have root : EmptyRoot ⟨"/data"⟩ {} := by
    refine ⟨fun name rest => ?_, fun place _ content there => ?_, .inr (by decide)⟩
    · have place : placeOf "/data" = ["data"] := by decide
      rw [place]
      rfl
    · cases place <;> cases there
  have survive : ∀ project, .project project ∈ trip → Survives project := by
    have read : Instant.read (Instant.toJson ⟨1709993107, 250000000⟩) = .ok ⟨1709993107, 250000000⟩ := by
      decide +kernel
    intro project member
    simp only [trip, List.mem_cons, Put.project.injEq, reduceCtorEq, List.not_mem_nil, or_false, false_or] at member
    rcases member with rfl | rfl <;> rintro created ⟨⟩ <;> exact read
  have done : ((putAll ⟨"/data"⟩ trip).run.run {}).1 = .ok () := by decide +kernel
  have ran : (putAll ⟨"/data"⟩ trip).run.run {} = (.ok (), ((putAll ⟨"/data"⟩ trip).run.run {}).2) := Prod.ext done rfl
  exact ⟨root, survive, _, ran, (store_maps ⟨"/data"⟩).1 _ _ _ root survive ran,
    (store_maps ⟨"/data"⟩).2.1 _ _ (.inr (.inr (.inl rfl)))⟩

end Montage.Proofs.StoreMaps
