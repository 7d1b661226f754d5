import Montage.Proofs.ModelsWritten
import Montage.Proofs.StoreReads

/-! Keeping things in a store. What is put into it is on the disk afterwards, under a name of its own, and
the record of a file says where its content is. -/

namespace Montage.Proofs.StoreKept
open Json JobLogic JobFrame DiskFrame DiskPlaces PathJoin StoreReads JsonTokens JsonReading ModelsWritten

theorem access_ok_iff {job : Job (Except DiskFault α)} {machine after : Machine} {value : α} :
    (Store.Access.ofDisk job).run.run machine = (.ok value, after) ↔ job.run machine = (.ok value, after) := by
  have lifted : (Store.Access.ofDisk job).run.run machine = ((job.run machine).1.mapError .disk, (job.run machine).2) :=
    run_bind job _ machine
  rw [lifted, Prod.mk.injEq, mapError_ok_iff, Prod.ext_iff]

theorem checkKey_ok_iff {id : String} {machine after : Machine} :
    (Store.checkKey id).run.run machine = (.ok (), after) ↔ Store.isKey id = true ∧ machine = after := by
  unfold Store.checkKey
  split
  next key =>
    rw [pure_ok_iff]
    simp [key]
  next refused =>
    have failed : (Store.Access.fail (.invalidKey id) : Store.Access Unit).run.run machine =
        (.error (.invalidKey id), machine) := rfl
    simp [failed, refused]

theorem disk_confined {allowed : Action → Prop} {job : Job (Except DiskFault α)} (confined : Confined allowed job) :
    Confined allowed (Store.Access.ofDisk job).run :=
  confined.bind fun _ => .done _

section Writing
variable {directory name : String} {content : ByteArray} {machine after : Machine}

theorem writeInto_confined (directory name : String) (content : ByteArray) :
    Confined (Within (Through directory) (· = placeOf (Path.join directory name)))
      (Store.writeInto directory name content).run := by
  apply Confined.attempt_bind (disk_confined (.ask fun _ through => through))
  intro _
  exact disk_confined (.ask rfl)

variable (written : (Store.writeInto directory name content).run.run machine = (.ok (), after))
include written

theorem read_written : after.disk.read (Path.join directory name) = .ok content := by
  obtain ⟨_, middle, -, wrote⟩ := bind_ok_iff.mp written
  have changed := access_ok_iff.mp wrote
  have performed : middle.change (middle.disk.write (Path.join directory name) content) = (.ok (), after) := changed
  cases done : middle.disk.write (Path.join directory name) content with
  | error fault =>
    rw [done] at performed
    cases performed
  | ok disk =>
    rw [done] at performed
    cases performed
    exact read_of_write done

/-- Whatever else was there is read as before. -/
theorem read_beside {path : String} {other : ByteArray} (apart : placeOf path ≠ placeOf (Path.join directory name))
    (read : machine.disk.read path = .ok other) : after.disk.read path = .ok other := by
  have frame := run_frame (writeInto_confined directory name content) machine
  have ended : (Store.writeInto directory name content).run.run machine = (.ok (), after) := written
  rw [ended] at frame
  exact frame.read apart read

end Writing

theorem readRecord_written {reader : Json.Reader α} {json : Json} {value : α} {path : String} {machine : Machine}
    (whole : isWhole json = true) (reads : reader json = .ok value)
    (there : machine.disk.read path = .ok json.pretty.toUTF8) :
    (Store.readRecord reader path).run.run machine = (.ok (some value), machine) := by
  rw [readRecord_run, there]
  simp only [decodeBytes_pretty reader json whole, reads]

theorem getRecord_written {store : Store} {id : String} {file : FileRecord} {machine : Machine}
    (key : Store.isKey id = true)
    (there : machine.disk.read (Path.join store.recordDirectory (Store.recordName id)) = .ok file.toJson.pretty.toUTF8) :
    (store.getRecord id).run.run machine = (.ok (some file), machine) :=
  bind_ok_iff.mpr ⟨(), machine, checkKey_ok_iff.mpr ⟨key, rfl⟩,
    readRecord_written (file_written file).whole (file_written file).read there⟩

/-- The record of a project is in a store, as it is after it was put there (`putProject_kept`). -/
structure HasProject (store : Store) (id : String) (machine : Machine) : Prop where
  key : Store.isKey id = true
  record : ∃ text, machine.disk.read (Path.join store.projectDirectory (Store.recordName id)) = .ok text

/-- A file is in a store, as it is after it was put there (`putFile_kept`): its record, which names the location
that the store gives to contents, and the content. -/
structure HasFile (store : Store) (id : String) (machine : Machine) : Prop where
  key : Store.isKey id = true
  record : ∃ text, machine.disk.read (Path.join store.recordDirectory (Store.recordName id)) = .ok text
  location : ∀ file, ((store.getRecord id).run.run machine).1 = .ok (some file) →
    file.location = Store.contentLocation id
  content : ∃ content, machine.disk.read (Path.join store.root (Store.contentLocation id)) = .ok content

theorem content_apart (store : Store) {id : String} (key : Store.isKey id = true) :
    placeOf (Path.join store.contentDirectory id) ≠ placeOf (Path.join store.recordDirectory (Store.recordName id)) := by
  rw [← join_contentLocation store key, placeOf_content store key, placeOf_fileRecord store key]
  intro same
  have directories := List.append_inj_left' same rfl
  exact absurd (List.append_inj_right' directories rfl) (by decide)

theorem putProject_kept {store : Store} {project : Project} {machine after : Machine}
    (put : (store.putProject project).run.run machine = (.ok (), after)) : HasProject store project.id after := by
  obtain ⟨_, _, checked, written⟩ := bind_ok_iff.mp put
  obtain ⟨key, rfl⟩ := checkKey_ok_iff.mp checked
  exact ⟨key, _, read_written written⟩

theorem putFile_kept {store : Store} {id name contentType : String} {content : ByteArray} {file : FileRecord}
    {machine after : Machine} (put : (store.putFile id name contentType content).run.run machine = (.ok file, after)) :
    HasFile store id after := by
  obtain ⟨_, _, checked, put⟩ := bind_ok_iff.mp put
  obtain ⟨key, rfl⟩ := checkKey_ok_iff.mp checked
  obtain ⟨_, middle, content_written, put⟩ := bind_ok_iff.mp put
  obtain ⟨_, last, record_written, done⟩ := bind_ok_iff.mp put
  obtain ⟨rfl, rfl⟩ := pure_ok_iff.mp done
  have held := read_written content_written
  have held := read_beside record_written (content_apart store key) held
  rw [← join_contentLocation store key] at held
  have record := read_written record_written
  refine ⟨key, ⟨_, record⟩, ?_, _, held⟩
  intro file found
  rw [getRecord_written key record] at found
  cases found
  rfl

end Montage.Proofs.StoreKept
