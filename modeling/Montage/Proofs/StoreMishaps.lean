import Montage.Proofs.JobMishaps
import Montage.Proofs.StoreMaps

/-! A file that could not be put into a store. Its record is what it was before, but since its content is written first
and in place, that may be the new one already, under the old name. -/

namespace Montage.Proofs.StoreMishaps
open JobFrame DiskFrame DiskPlaces DiskTree PathJoin JobTrouble JobMishaps StoreReads StoreKept StoreShelves StoreMaps

variable {mishaps : Mishaps} {machine : Machine}

section Writing

private theorem write_weathers (path : String) (content : ByteArray) :
    Weathers mishaps (Job.ask (.write path content)) machine fun
    | .ok (), after => after.disk.read path = .ok content
    | .error _, after => after = machine ∨ mishaps.Tears path ∧ ∃ part, after.disk.read path = .ok part := by
  apply Weathers.ask
  · simp only [Machine.perform]
    cases tried : machine.disk.write path content with
    | ok disk => exact read_of_write tried
    | error fault => exact .inl rfl
  · intro fault reply left may told
    cases Option.some.inj told
    by_cases same : left = machine
    · exact .inl same
    · cases mishaps.leaves may with
      | untouched => exact absurd rfl same
      | torn written => exact .inr ⟨⟨_, _, _, may, same⟩, _, read_of_write written⟩

private theorem access_weathers {job : Job (Except DiskFault α)} {post : Except Store.Fault α → Machine → Prop}
    (weathers : Weathers mishaps job machine fun result after => post (result.mapError .disk) after) :
    Weathers mishaps (Store.Access.ofDisk job).run machine post :=
  weathers.bind fun _ _ holds => Weathers.pure holds

private theorem writeInto_weathers (directory name : String) (content : ByteArray) :
    Weathers mishaps (Store.writeInto directory name content).run machine fun
      | .ok (), after => Frame (Through directory) (· = placeOf (Path.join directory name)) machine.disk after.disk ∧
          after.disk.read (Path.join directory name) = .ok content
      | .error _, after => Frame (Through directory) (fun _ => False) machine.disk after.disk ∨
          mishaps.Tears (Path.join directory name) ∧
            Frame (Through directory) (· = placeOf (Path.join directory name)) machine.disk after.disk ∧
            ∃ part, after.disk.read (Path.join directory name) = .ok part := by
  have way : Confined (Within (Through directory) fun _ => False) (Job.ask (.makeDirectories directory)) :=
    .ask fun _ through => through
  have made : Weathers mishaps (Store.Access.ofDisk (Job.ask (.makeDirectories directory))).run machine fun _ after =>
      Frame (Through directory) (fun _ => False) machine.disk after.disk := access_weathers (weathers_frame way machine)
  apply Weathers.attempt_bind made
  · intro _ middle first
    have target : Confined (Within (Through directory) (· = placeOf (Path.join directory name)))
        (Job.ask (.write (Path.join directory name) content)) := .ask rfl
    apply access_weathers
    apply ((write_weathers (Path.join directory name) content).both (weathers_frame target middle)).weaken
    have wider : Frame (Through directory) (· = placeOf (Path.join directory name)) machine.disk middle.disk :=
      first.weaken (fun _ way => way) fun _ => False.elim
    rintro (fault | done) after ⟨written, frame⟩
    · obtain rfl | ⟨torn, there⟩ := written
      · exact .inl first
      · exact .inr ⟨torn, wider.trans frame, there⟩
    · exact ⟨wider.trans frame, written⟩
  · intro fault after frame
    exact .inl frame

end Writing

variable {store : Store} {id name contentType : String} {content : ByteArray}

def OnTheWay (store : Store) (place : List String) : Prop :=
  Through store.contentDirectory place ∨ Through store.recordDirectory place

/-- What putting a file into a store leaves when it fails: directories, and perhaps another content. -/
inductive Unput (mishaps : Mishaps) (store : Store) (id : String) (content : ByteArray) (before after : Disk) :
    Prop where
  | untouched (frame : Frame (OnTheWay store) (fun _ => False) before after)
  | overwritten {bytes : ByteArray}
      (frame : Frame (OnTheWay store) (· = placeOf (Path.join store.contentDirectory id)) before after)
      (there : after.read (Path.join store.contentDirectory id) = .ok bytes)
      (whole : bytes = content ∨ mishaps.Tears (Path.join store.contentDirectory id))

private theorem putFile_weathers (key : Store.isKey id = true)
    (whole : ¬ mishaps.Tears (Path.join store.recordDirectory (Store.recordName id))) :
    Weathers mishaps (store.putFile id name contentType content).run machine fun
      | .ok _, _ => True
      | .error _, after => Unput mishaps store id content machine.disk after.disk := by
  rw [Store.putFile, Store.checkKey, if_pos key, pure_bind]
  apply Weathers.attempt_bind (writeInto_weathers store.contentDirectory id content)
  · rintro _ middle ⟨frame, there⟩
    have first : Frame (OnTheWay store) (· = placeOf (Path.join store.contentDirectory id)) machine.disk middle.disk :=
      frame.weaken (fun _ => .inl) fun _ same => same
    apply Weathers.attempt_bind (writeInto_weathers store.recordDirectory (Store.recordName id) _)
    · intro _ after _
      exact Weathers.pure trivial
    · rintro fault after (kept | ⟨torn, -⟩)
      · have second : Frame (OnTheWay store) (· = placeOf (Path.join store.contentDirectory id)) middle.disk
            after.disk :=
          kept.weaken (fun _ => .inr) fun _ => False.elim
        exact .overwritten (first.trans second) (kept.read not_false there) (.inl rfl)
      · exact absurd torn whole
  · rintro fault after (kept | ⟨torn, frame, part, there⟩)
    · exact .untouched (kept.weaken (fun _ => .inl) fun _ => False.elim)
    · exact .overwritten (frame.weaken (fun _ => .inl) fun _ same => same) there (.inr torn)

namespace Unput
variable {before after : Machine}

theorem frame (unput : Unput mishaps store id content before.disk after.disk) :
    Frame (OnTheWay store) (· = placeOf (Path.join store.contentDirectory id)) before.disk after.disk := by
  cases unput with
  | untouched frame => exact frame.weaken (fun _ way => way) fun _ => False.elim
  | overwritten frame => exact frame

theorem persists (unput : Unput mishaps store id content before.disk after.disk) : Persists before.disk after.disk := by
  refine ⟨unput.frame.firm, fun {place held} there => ?_⟩
  cases unput with
  | untouched frame => exact ⟨held, frame.kept not_false there⟩
  | overwritten frame new =>
    by_cases same : place = placeOf (Path.join store.contentDirectory id)
    · obtain ⟨target, found, written⟩ := read_ok new
      obtain rfl := locate_placeOf found
      exact ⟨_, same ▸ written⟩
    · exact ⟨held, frame.kept same there⟩

theorem read_kept (unput : Unput mishaps store id content before.disk after.disk) (path : String) :
    after.disk.read path = before.disk.read path ∨ before.disk.read path = .error .notFound ∨
      placeOf path = placeOf (Path.join store.contentDirectory id) ∧
        ∃ held bytes, before.disk.read path = .ok held ∧ after.disk.read path = .ok bytes ∧
          (bytes = content ∨ mishaps.Tears (Path.join store.contentDirectory id)) := by
  cases read : before.disk.read path with
  | error fault =>
    by_cases missing : fault = .notFound
    · exact .inr (.inl (missing ▸ rfl))
    · exact .inl (read_barred unput.persists read missing)
  | ok held =>
    cases unput with
    | untouched frame => exact .inl (frame.read not_false read)
    | overwritten frame there whole =>
      by_cases same : placeOf path = placeOf (Path.join store.contentDirectory id)
      · obtain ⟨place, found, -⟩ := read_ok read
        obtain ⟨target, located, written⟩ := read_ok there
        obtain rfl := locate_placeOf found
        obtain rfl := locate_placeOf located
        rw [← same] at written
        exact .inr (.inr ⟨same, held, _, rfl, read_of_at (locate_firm frame.firm found) written, whole⟩)
      · exact .inl (frame.read same read)

end Unput

section Answers

def recordOf (store : Store) (id : String) (machine : Machine) : Except Store.Fault (Option FileRecord) :=
  ((store.getRecord id).run.run machine).1

def fileOf (store : Store) (id : String) (machine : Machine) : Except Store.Fault (Option Store.StoredFile) :=
  ((store.getFile id).run.run machine).1

theorem getRecord_run (store : Store) (id : String) (machine : Machine) :
    (store.getRecord id).run.run machine = (recordOf store id machine, machine) :=
  Prod.ext rfl (run_reads (getRecord_confined trivial) machine)

theorem fileOf_none (none : recordOf store id machine = .ok none) : fileOf store id machine = .ok .none := by
  have found := getRecord_run store id machine
  rw [none] at found
  exact congrArg Prod.fst (getFile_none found)

private theorem fileOf_missing {file : FileRecord} (found : recordOf store id machine = .ok (some file))
    (missing : machine.disk.read (Path.join store.root file.location) = .error .notFound) :
    fileOf store id machine = .error (.missingContent id file.location) := by
  have record := getRecord_run store id machine
  rw [fileOf, Store.getFile, JobLogic.run_attempt_bind, record, found]
  simp only [map_eq_pure_bind, JobLogic.run_attempt_bind, readContent_run, missing]

private theorem fileOf_some {file : FileRecord} {bytes : ByteArray}
    (found : recordOf store id machine = .ok (some file))
    (there : machine.disk.read (Path.join store.root file.location) = .ok bytes) :
    fileOf store id machine = .ok (some ⟨file.name, file.contentType, bytes⟩) := by
  have record := getRecord_run store id machine
  rw [found] at record
  exact congrArg Prod.fst (getFile_some record there)

theorem recordOf_none_iff (key : Store.isKey id = true) : recordOf store id machine = .ok none ↔
    machine.disk.read (Path.join store.recordDirectory (Store.recordName id)) = .error .notFound := by
  rw [recordOf, Store.getRecord, keyed_run key, readRecord_run]
  rcases machine.disk.read (Path.join store.recordDirectory (Store.recordName id)) with fault | text
  · cases fault <;> simp
  · dsimp only
    split <;> simp

variable {before after : Machine}

/-- A file of which there was no record has none later. -/
theorem Unput.absent (unput : Unput mishaps store id content before.disk after.disk) (key : Store.isKey id = true)
    (missing : before.disk.read (Path.join store.recordDirectory (Store.recordName id)) = .error .notFound)
    (rooted : Rooted before.disk) (level : Level store before.disk)
    (fits : Fits (Path.join store.recordDirectory (Store.recordName id))) :
    after.disk.read (Path.join store.recordDirectory (Store.recordName id)) = .error .notFound := by
  have files : Plain "files" := by decide
  have blobs : Plain "blobs" := by decide
  have name : Plain (Store.recordName id) := suffixed_plain (key_plain key)
  have record_place : placeOf (Path.join store.recordDirectory (Store.recordName id)) =
      placeOf store.root ++ ["files", Store.recordName id] := placeOf_shelved files name
  have content_place : placeOf (Path.join store.contentDirectory id) = placeOf store.root ++ ["blobs", id] :=
    placeOf_shelved blobs (key_plain key)
  have apart := (content_apart store key).symm
  obtain ⟨free, clear⟩ := shelved_missing rooted level files name fits missing
  rw [← record_place] at free
  refine read_missing fits ?_ ?_
  · intro place through held there
    by_cases same : place = placeOf (Path.join store.contentDirectory id)
    · have directory : before.disk.at? place = some .directory := by
        rcases through_join name through with through | ends
        · exact shelf_directory level files through (same.trans content_place)
        · exact absurd ((placeOf_join _ name).trans (ends.symm.trans same)) apart
      cases (unput.frame.firm place directory).symm.trans there
    · obtain kept | ⟨-, -, directory⟩ := unput.frame.same place same
      · exact clear place through held (kept.symm.trans there)
      · cases directory.symm.trans there
  · obtain kept | ⟨through | through, -, -⟩ := unput.frame.same _ apart
    · exact kept.trans free
    · cases (shelf_directory level blobs through record_place).symm.trans free
    · cases (shelf_directory level files through record_place).symm.trans free

end Answers

section Failing
variable {before after : Machine}

/-- The record of a file names the place where the store keeps contents, and its bytes are not what they were: they
are those that were to be put there, or, where a write may be torn, others. -/
structure Replaced (mishaps : Mishaps) (store : Store) (id : String) (content : ByteArray) (before after : Machine) :
    Prop where
  named : ∃ file, recordOf store id before = .ok (some file) ∧
    placeOf (Path.join store.root file.location) = placeOf (Path.join store.contentDirectory id)
  bytes : ∃ stored bytes, fileOf store id before = .ok (some stored) ∧
    fileOf store id after = .ok (some { stored with content := bytes }) ∧
    (bytes = content ∨ mishaps.Tears (Path.join store.contentDirectory id))

/-- What a store answers about a file after another one could not be put in its place. -/
structure Kept (mishaps : Mishaps) (store : Store) (id : String) (content : ByteArray) (before after : Machine) :
    Prop where
  record : recordOf store id after = recordOf store id before ∨ recordOf store id before = .ok none
  absent : recordOf store id before = .ok none → Rooted before.disk → Level store before.disk →
    Fits (Path.join store.recordDirectory (Store.recordName id)) →
    recordOf store id after = .ok none ∧ fileOf store id after = .ok none
  file : fileOf store id after = fileOf store id before ∨ fileOf store id before = .ok none ∨
    (∃ location, fileOf store id before = .error (.missingContent id location)) ∨
    Replaced mishaps store id content before after

theorem Kept.refl (mishaps : Mishaps) (store : Store) (id : String) (content : ByteArray) (machine : Machine) :
    Kept mishaps store id content machine machine where
  record := .inl rfl
  absent none _ _ _ := ⟨none, fileOf_none none⟩
  file := .inl rfl

theorem Unput.file_kept (unput : Unput mishaps store id content before.disk after.disk) {file : FileRecord}
    (found : recordOf store id before = .ok (some file))
    (record : after.disk.read (Path.join store.recordDirectory (Store.recordName id)) =
      before.disk.read (Path.join store.recordDirectory (Store.recordName id))) :
    fileOf store id after = fileOf store id before ∨
      (∃ location, fileOf store id before = .error (.missingContent id location)) ∨
      Replaced mishaps store id content before after := by
  have again : recordOf store id after = .ok (some file) :=
    (run_agree (getRecord_confined record)).trans found
  have answer (same : after.disk.read (Path.join store.root file.location) =
      before.disk.read (Path.join store.root file.location)) : fileOf store id after = fileOf store id before := by
    apply getFile_agree record
    intro other known
    cases again.symm.trans known
    exact same
  obtain same | missing | ⟨named, held, bytes, first, second, whole⟩ :=
    unput.read_kept (Path.join store.root file.location)
  · exact .inl (answer same)
  · exact .inr (.inl ⟨_, fileOf_missing found missing⟩)
  · refine .inr (.inr ⟨⟨file, found, named⟩, ⟨file.name, file.contentType, held⟩, bytes, ?_, ?_, whole⟩)
    · exact fileOf_some found first
    · exact fileOf_some again second

theorem Unput.kept (unput : Unput mishaps store id content before.disk after.disk) (key : Store.isKey id = true) :
    Kept mishaps store id content before after := by
  have looked : after.disk.read (Path.join store.recordDirectory (Store.recordName id)) =
        before.disk.read (Path.join store.recordDirectory (Store.recordName id)) ∨
      before.disk.read (Path.join store.recordDirectory (Store.recordName id)) = .error .notFound :=
    (unput.read_kept _).imp_right fun changed =>
      changed.resolve_right fun replaced => content_apart store key replaced.1.symm
  refine ⟨?_, fun none rooted level fits => ?_, ?_⟩
  · obtain same | missing := looked
    · exact .inl (run_agree (getRecord_confined same))
    · exact .inr ((recordOf_none_iff key).mpr missing)
  · have still := unput.absent key ((recordOf_none_iff key).mp none) rooted level fits
    have none := (recordOf_none_iff key).mpr still
    exact ⟨none, fileOf_none none⟩
  · obtain same | missing := looked
    · cases found : recordOf store id before with
      | error fault =>
        left
        apply getFile_agree same
        intro file known
        cases (run_agree (getRecord_confined same)).symm.trans known |>.symm.trans found
      | ok record =>
        cases record with
        | none => exact .inr (.inl (fileOf_none found))
        | some file => exact (unput.file_kept found same).imp_right .inr
    · exact .inr (.inl (fileOf_none ((recordOf_none_iff key).mpr missing)))

/-- Whatever steps fail, and whatever of the content they leave, when a file cannot be put into a store its record is
what it was, unless the record itself was torn, and the file is what it was but for its bytes. -/
theorem failed_put_kept (mishaps : Mishaps) (store : Store) (id name contentType : String) (content : ByteArray)
    (before after : Machine) (fault : Store.Fault)
    (fares : Fares mishaps (store.putFile id name contentType content).run before (.error fault) after)
    (whole : ¬ mishaps.Tears (Path.join store.recordDirectory (Store.recordName id))) :
    (Store.isKey id = false → after = before) ∧ Kept mishaps store id content before after := by
  cases key : Store.isKey id with
  | true => exact ⟨nofun, ((putFile_weathers key whole).holds fares).kept key⟩
  | false =>
    have refused : (store.putFile id name contentType content).run = Pure.pure (.error (.invalidKey id)) := by
      rw [Store.putFile, Store.checkKey, key, if_neg Bool.false_ne_true]
      rfl
    rw [refused] at fares
    cases fares
    exact ⟨fun _ => rfl, .refl ..⟩

private theorem torn_course {machine middle last : Machine} (part : ByteArray) (fault : DiskFault)
    (key : Store.isKey id = true)
    (written : (Store.writeInto store.contentDirectory id content).run.run machine = (.ok (), middle))
    (made : middle.perform (.makeDirectories store.recordDirectory) = (.ok (), last))
    (torn : (last.perform (.write (Path.join store.recordDirectory (Store.recordName id)) part)).1 = .ok ()) :
    Fares .any (store.putFile id name contentType content).run machine (.error (.disk fault))
      (last.perform (.write (Path.join store.recordDirectory (Store.recordName id)) part)).2 := by
  have first : Fares .any (Store.writeInto store.contentDirectory id content).run machine (.ok ()) middle := by
    have runs : Fares .any (Store.writeInto store.contentDirectory id content).run machine _ _ := fares_run _ machine
    have ended : (Store.writeInto store.contentDirectory id content).run.run machine = (.ok (), middle) := written
    rwa [ended] at runs
  have way : Fares .any (Store.Access.ofDisk (Job.ask (.makeDirectories store.recordDirectory))).run middle (.ok ())
      last := by
    apply Fares.does
    rw [made]
    exact .done _ _
  have leaves (path : String) (whole : ByteArray) (torn : (last.perform (.write path part)).1 = .ok ()) :
      Leaves last (.write path whole) (last.perform (.write path part)).2 := by
    simp only [Machine.perform] at torn ⊢
    cases done : last.disk.write path part with
    | ok disk => exact .torn done
    | error fault =>
      rw [done] at torn
      cases torn
  rw [Store.putFile, Store.checkKey, if_pos key, pure_bind]
  apply first.attempt_bind
  apply Fares.attempt_bind_error
  apply way.attempt_bind
  exact .fails (leaves _ _ torn) rfl (.done _ _)

def stocked : Machine :=
  ((Store.putFile ⟨"data"⟩ "f1" "a.mp4" "video/mp4" "old".toUTF8).run.run {}).2

def refill : Store.Access FileRecord :=
  Store.putFile ⟨"data"⟩ "f1" "b.mp4" "video/mp4" "new".toUTF8

def tightDisk : Trouble
  | .write path _ => if path = "data/files/f1.json" then some (.other "No space left on device (os error 28)") else none
  | _ => none

theorem refill_fails : Fares .harmless refill.run stocked
    (.error (.disk (.other "No space left on device (os error 28)"))) (runAmid tightDisk refill.run stocked).2 := by
  have failed : (runAmid tightDisk refill.run stocked).1 =
      .error (.disk (.other "No space left on device (os error 28)")) := by decide +kernel
  rw [← failed]
  exact fares_amid (fun _ _ _ _ => rfl) _ _

theorem refill_kept : ∃ fault after, Fares .harmless refill.run stocked (.error fault) after ∧
    ¬ Mishaps.harmless.Tears (Path.join (Store.recordDirectory ⟨"data"⟩) (Store.recordName "f1")) ∧
    (Store.isKey "f1" = false → after = stocked) ∧ Kept .harmless ⟨"data"⟩ "f1" "new".toUTF8 stocked after :=
  ⟨_, _, refill_fails, Mishaps.harmless_whole _,
    failed_put_kept _ _ _ _ _ _ _ _ _ refill_fails (Mishaps.harmless_whole _)⟩

deriving instance DecidableEq for Store.StoredFile

/-- Where a record cannot be written its file has the new bytes under the old name, and where it is torn there is
nothing that could be read. -/
theorem refill_shows : fileOf ⟨"data"⟩ "f1" stocked = .ok (some ⟨"a.mp4", "video/mp4", "old".toUTF8⟩) ∧
    (∃ fault after, Fares .harmless refill.run stocked (.error fault) after ∧
      fileOf ⟨"data"⟩ "f1" after = .ok (some ⟨"a.mp4", "video/mp4", "new".toUTF8⟩)) ∧
    ∃ fault after, Fares .any refill.run stocked (.error fault) after ∧
      recordOf ⟨"data"⟩ "f1" after = .error (.json .malformed) := by
  let contents := Store.contentDirectory ⟨"data"⟩
  let middle := ((Store.writeInto contents "f1" "new".toUTF8).run.run stocked).2
  have written : ((Store.writeInto contents "f1" "new".toUTF8).run.run stocked).1 = .ok () := by decide +kernel
  have made : (middle.perform (.makeDirectories (Store.recordDirectory ⟨"data"⟩))).1 = .ok () := by decide +kernel
  refine ⟨by decide +kernel, ⟨_, _, refill_fails, by decide +kernel⟩, ?_⟩
  refine ⟨_, _, torn_course .empty (.other "") (by decide) (Prod.ext written rfl) (Prod.ext made rfl) ?_, ?_⟩ <;>
    decide +kernel

end Failing

end Montage.Proofs.StoreMishaps
