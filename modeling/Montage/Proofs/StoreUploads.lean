import Montage.Proofs.PoolWrites
import Montage.Proofs.StoreMaps
import Montage.Proofs.StoreMishaps

/-! Uploads side by side. A store keeps a file as a content and a record, which are written one after the other, and read
one after the other in the opposite order; nothing else keeps calls apart. -/

namespace Montage.Proofs.StoreUploads
open Json JobFrame DiskPlaces PathJoin StoreReads StoreKept StoreMaps JsonReading ModelsWritten JobPool PoolWrites

inductive Call where
  | put (id : String) (file : Store.StoredFile)
  | get (id : String)

inductive Answer where
  | stored (result : Except Store.Fault FileRecord)
  | found (result : Except Store.Fault (Option Store.StoredFile))
  deriving DecidableEq

def Call.job (store : Store) : Call → Job Answer
  | .put id file => .stored <$> (store.putFile id file.name file.contentType file.content).run
  | .get id => .found <$> (store.getFile id).run

def recordPath (store : Store) (id : String) : String :=
  Path.join store.recordDirectory (Store.recordName id)

def contentPath (store : Store) (id : String) : String :=
  Path.join store.contentDirectory id

def recordText (id : String) (file : Store.StoredFile) : ByteArray :=
  (Store.fileRecord id file.name file.contentType file.content).toJson.pretty.toUTF8

/-- A step of a call, of which only a put writes, and only its own content and record. -/
def Owns (store : Store) : Call → Action → Prop
  | .put id file, .write path content => Store.isKey id = true ∧
      (path = contentPath store id ∧ content = file.content ∨ path = recordPath store id ∧ content = recordText id file)
  | .put _ _, .makeDirectories _ => True
  | .get _, .read _ => True
  | _, _ => False

section Calls
variable {store : Store}

private theorem writeInto_owns {call : Call} {directory name : String} {content : ByteArray}
    (makes : Owns store call (.makeDirectories directory))
    (writes : Owns store call (.write (Path.join directory name) content)) :
    Confined (Owns store call) (Store.writeInto directory name content).run := by
  apply Confined.attempt_bind (disk_confined (.ask makes))
  intro _
  exact disk_confined (.ask writes)

private theorem call_owns (store : Store) (call : Call) : Confined (Owns store call) (call.job store) := by
  cases call with
  | put id file =>
    refine Confined.bind (keyed_confined fun key => ?_) fun _ => .done _
    refine Confined.attempt_bind (writeInto_owns trivial ⟨key, .inl ⟨rfl, rfl⟩⟩) fun _ => ?_
    refine Confined.attempt_bind (writeInto_owns trivial ⟨key, .inr ⟨rfl, rfl⟩⟩) fun _ => ?_
    exact .attempt_pure _
  | get id =>
    refine Confined.bind ((getFile_reads store id).weaken ?_) fun _ => .done _
    intro action reads
    cases action with
    | read path => trivial
    | _ => exact reads.elim

private theorem call_whole (store : Store) (call : Call) : Confined Whole (call.job store) := by
  refine (call_owns store call).weaken ?_
  intro action owns
  cases action with
  | makeDirectories | write | read | findProgram | isThere | size | now | freshId => trivial
  | _ => cases call <;> exact owns

private theorem contentPath_location {id : String} (key : Store.isKey id = true) :
    Path.join store.root (Store.contentLocation id) = contentPath store id :=
  join_contentLocation store key

theorem content_place {id : String} (key : Store.isKey id = true) :
    placeOf (contentPath store id) = placeOf store.root ++ ["blobs", id] := by
  rw [← contentPath_location key, placeOf_content store key, List.append_assoc]
  rfl

theorem record_place {id : String} (key : Store.isKey id = true) :
    placeOf (recordPath store id) = placeOf store.root ++ ["files", Store.recordName id] := by
  rw [recordPath, placeOf_fileRecord store key, List.append_assoc]
  rfl

theorem checkKey_steps {id : String} {steps : List Event} {last : Job (Except Store.Fault Unit)}
    (ran : Ran (Store.checkKey id).run steps last) : steps = [] := by
  have none_allowed := ran.confined (@checkKey_confined (fun _ => False) id)
  exact List.eq_nil_iff_forall_not_mem.mpr none_allowed

private theorem checkKey_passed {id : String} {steps : List Event}
    (ran : Ran (Store.checkKey id).run steps (.done (.ok ()))) : Store.isKey id = true := by
  unfold Store.checkKey at ran
  split at ran
  next key => exact key
  next => cases ran.done.2

private theorem disk_ran {job : Job (Except DiskFault α)} {value : α} {steps : List Event}
    (ran : Ran (Store.Access.ofDisk job).run steps (.done (.ok value))) : Ran job steps (.done (.ok value)) := by
  have ran : Ran (job >>= fun result => pure (result.mapError Store.Fault.disk)) steps (.done (.ok value)) := ran
  obtain ⟨result, front, rest, rfl, first, ended⟩ := ran.bind_done
  obtain ⟨rfl, same⟩ := ended.done
  rwa [JobLogic.mapError_ok_iff.mp (Job.done.inj same).symm, ← List.append_nil front] at first

private theorem writeInto_wrote {directory name : String} {content : ByteArray} {steps : List Event}
    (ran : Ran (Store.writeInto directory name content).run steps (.done (.ok ()))) :
    ∃ event ∈ steps, written (placeOf (Path.join directory name)) event.action event.reply = some content := by
  let write : Action := .write (Path.join directory name) content
  obtain ⟨_, front, rest, rfl, -, last⟩ := ran.attempt_ok
  obtain ⟨worker, found, rfl, done⟩ := Ran.ask_done (disk_ran last)
  refine ⟨⟨worker, write, found⟩, by simp [write], ?_⟩
  change written _ write (found.perform write).1 = _
  rw [← done]
  exact if_pos rfl

/-- A put writes its record when its content has been written. -/
private theorem put_course {id : String} {file : Store.StoredFile} {steps : List Event} {last : Job Answer}
    (ran : Ran (Call.job store (.put id file)) steps last) (key : Store.isKey id = true) {event : Event}
    (member : event ∈ steps) {text : ByteArray}
    (wrote : written (placeOf (recordPath store id)) event.action event.reply = some text) :
    ∃ event ∈ steps, written (placeOf (contentPath store id)) event.action event.reply = some file.content := by
  obtain ⟨path, asked, there⟩ := written_some wrote
  obtain ⟨_, ran⟩ := ran.map_front
  rcases ran.attempt_cases with ⟨_, checking⟩ | ⟨_, checked, rest, rfl, checking, putting⟩
  · obtain rfl := checkKey_steps checking
    cases member
  · obtain rfl := checkKey_steps checking
    rcases putting.attempt_cases with ⟨_, writing⟩ | ⟨_, first, second, rfl, writing, -⟩
    · have within := writing.confined (writeInto_confined _ _ _) event member
      rw [asked] at within
      exact absurd (within.symm.trans there) (content_apart store key)
    · obtain ⟨event, member, wrote⟩ := writeInto_wrote writing
      exact ⟨event, List.mem_append_right [] (List.mem_append_left _ member), wrote⟩

private theorem readRecord_ran {reader : Reader α} {path : String} {value : α} {steps : List Event}
    (ran : Ran (Store.readRecord reader path).run steps (.done (.ok (some value)))) :
    ∃ worker found text, steps = [⟨worker, .read path, found⟩] ∧ found.disk.read path = .ok text ∧
      decodeBytes reader text = .ok value := by
  obtain ⟨worker, found, rest, rfl, ended⟩ := ran.read_done
  cases read : found.disk.read path with
  | error fault =>
    rw [read] at ended
    cases fault <;> cases ended.done.2
  | ok text =>
    cases decoded : decodeBytes reader text with
    | error fault =>
      simp only [read, decoded] at ended
      cases ended.done.2
    | ok given =>
      simp only [read, decoded] at ended
      obtain ⟨rfl, same⟩ := ended.done
      cases same
      exact ⟨worker, found, text, rfl, read, decoded⟩

private theorem readContent_ran {id : String} {record : FileRecord} {file : Store.StoredFile} {steps : List Event}
    (ran : Ran (store.readContent id record).run steps (.done (.ok file))) :
    ∃ worker found content, steps = [⟨worker, .read (Path.join store.root record.location), found⟩] ∧
      found.disk.read (Path.join store.root record.location) = .ok content ∧
      file = ⟨record.name, record.contentType, content⟩ := by
  obtain ⟨worker, found, rest, rfl, ended⟩ := ran.read_done
  cases read : found.disk.read (Path.join store.root record.location) with
  | error fault =>
    rw [read] at ended
    cases fault <;> cases ended.done.2
  | ok content =>
    rw [read] at ended
    obtain ⟨rfl, same⟩ := ended.done
    cases same
    exact ⟨worker, found, content, rfl, read, rfl⟩

/-- A get that found a file read a record, and then the content at the location in it. -/
private theorem get_course {id : String} {file : Store.StoredFile} {steps : List Event}
    (ran : Ran (Call.job store (.get id)) steps (.done (.found (.ok (some file))))) : Store.isKey id = true ∧
      ∃ first second : Nat, ∃ described stored : Machine, ∃ text record content,
        steps = [⟨first, .read (recordPath store id), described⟩,
          ⟨second, .read (Path.join store.root record.location), stored⟩] ∧
        described.disk.read (recordPath store id) = .ok text ∧
        decodeBytes FileRecord.read text = .ok record ∧
        stored.disk.read (Path.join store.root record.location) = .ok content ∧
        file = ⟨record.name, record.contentType, content⟩ := by
  obtain ⟨_, getting, same⟩ := ran.map_done
  obtain rfl := Answer.found.inj same
  obtain ⟨record, front, rest, rfl, looking, fetching⟩ := getting.attempt_ok
  cases record with
  | none => cases fetching.done.2
  | some record =>
    obtain ⟨_, checked, front, rfl, checking, reading⟩ := looking.attempt_ok
    obtain rfl := checkKey_steps checking
    obtain ⟨first, described, text, rfl, read, decoded⟩ := readRecord_ran reading
    simp only [map_eq_pure_bind] at fetching
    obtain ⟨_, front, rest, rfl, fetching, ended⟩ := fetching.attempt_ok
    obtain ⟨rfl, same⟩ := ended.done
    cases same
    obtain ⟨second, stored, content, rfl, there, given⟩ := readContent_ran fetching
    exact ⟨checkKey_passed checking, first, second, described, stored, text, record, content, rfl, read, decoded, there,
      given⟩

private theorem calls_whole (store : Store) (calls : List Call) :
    ∀ job ∈ calls.map (Call.job store), Confined Whole job := by
  intro job member
  obtain ⟨call, -, rfl⟩ := List.mem_map.mp member
  exact call_whole store call

private theorem recordText_read (id : String) (file : Store.StoredFile) :
    decodeBytes FileRecord.read (recordText id file) =
    .ok (Store.fileRecord id file.name file.contentType file.content) := by
  have written := file_written (Store.fileRecord id file.name file.contentType file.content)
  rw [recordText, decodeBytes_pretty _ _ written.whole, written.read]

end Calls

def calling (store : Store) (calls : List Call) (machine : Machine) : Pool Answer :=
  ⟨calls.map (Call.job store), machine, []⟩

/-- How a reader came to a file: it read the record that was written last, by a first call, which had written its content
before, and later the content that was written last, by another call. The two are one and the same call, unless more was
written after the content of the first. -/
structure Seen (store : Store) (id : String) (events before between : List Event) (reader first last : Nat) : Prop where
  course : ∃ described stored rest, events = before ++ ⟨reader, .read (recordPath store id), described⟩ ::
    (between ++ ⟨reader, .read (contentPath store id), stored⟩ :: rest)
  record : (writers (placeOf (recordPath store id)) before).getLast? = some first
  written : first ∈ writers (placeOf (contentPath store id)) before
  content : (writers (placeOf (contentPath store id)) (before ++ between)).getLast? = some last
  own : ∃ earlier later, writers (placeOf (contentPath store id)) (before ++ between) = earlier ++ first :: later ∧
    first ∉ later ∧ (first = last ↔ later = [])

section Uploads
variable {store : Store} {calls : List Call} {machine : Machine}

/-- Whoever wrote to a place put a file, and wrote its content or its record there. -/
private theorem wrote_own {schedule : List Turn} {place : List String} {worker : Nat} {content : ByteArray}
    (member : (worker, content) ∈ writesTo place ((calling store calls machine).run schedule).events) :
    ∃ id file, calls[worker]? = some (.put id file) ∧ Store.isKey id = true ∧
      (place = placeOf (contentPath store id) ∧ content = file.content ∨
        place = placeOf (recordPath store id) ∧ content = recordText id file ∧ (worker, file.content) ∈
          writesTo (placeOf (contentPath store id)) ((calling store calls machine).run schedule).events) := by
  obtain ⟨event, step, wrote⟩ := mem_writesTo.mp member
  obtain ⟨mine, rfl⟩ := mem_stepsOf.mp step
  obtain ⟨job, last, there, ran⟩ := Ran.of_event mine
  rw [List.getElem?_map, Option.map_eq_some_iff] at there
  obtain ⟨call, there, rfl⟩ := there
  have owns := ran.confined (call_owns store call) event step
  obtain ⟨path, asked, rfl⟩ := written_some wrote
  rw [asked] at owns
  cases call with
  | get id => exact owns.elim
  | put id file =>
    obtain ⟨key, ⟨rfl, rfl⟩ | ⟨rfl, rfl⟩⟩ := owns
    · exact ⟨id, file, there, key, .inl ⟨rfl, rfl⟩⟩
    · exact ⟨id, file, there, key, .inr ⟨rfl, rfl, mem_writesTo.mpr (put_course ran key step wrote)⟩⟩

variable {schedule : List Turn} {id : String} (key : Store.isKey id = true) {worker : Nat}
include key

private theorem content_writer {content : ByteArray}
    (member : (worker, content) ∈
      writesTo (placeOf (contentPath store id)) ((calling store calls machine).run schedule).events) :
    ∃ file, calls[worker]? = some (.put id file) ∧ content = file.content := by
  obtain ⟨other, file, there, other_key, ⟨same, rfl⟩ | ⟨same, -⟩⟩ := wrote_own member
  · rw [content_place key, content_place other_key] at same
    obtain rfl : id = other := by simpa using same
    exact ⟨file, there, rfl⟩
  · rw [content_place key, record_place other_key] at same
    simp at same

private theorem record_writer {text : ByteArray}
    (member : (worker, text) ∈
      writesTo (placeOf (recordPath store id)) ((calling store calls machine).run schedule).events) :
    ∃ file, calls[worker]? = some (.put id file) ∧ text = recordText id file ∧ (worker, file.content) ∈
      writesTo (placeOf (contentPath store id)) ((calling store calls machine).run schedule).events := by
  obtain ⟨other, file, there, other_key, ⟨same, -⟩ | ⟨same, rfl, own⟩⟩ := wrote_own member
  · rw [record_place key, content_place other_key] at same
    simp at same
  · rw [record_place key, record_place other_key] at same
    obtain rfl : id = other := by simpa [recordName_inj] using same
    exact ⟨file, there, rfl, own⟩

variable {front rest : List Event} {found : Machine}

/-- The record that is read was written last by a put, which had written its content before. -/
private theorem record_seen
    (unrecorded : ∀ content, machine.disk.at? (placeOf (recordPath store id)) ≠ some (.file content))
    (events : ((calling store calls machine).run schedule).events =
      front ++ ⟨worker, .read (recordPath store id), found⟩ :: rest)
    {text : ByteArray} (read : found.disk.read (recordPath store id) = .ok text) :
    ∃ first file, calls[first]? = some (.put id file) ∧ text = recordText id file ∧
      (writers (placeOf (recordPath store id)) front).getLast? = some first ∧
      first ∈ writers (placeOf (contentPath store id)) front := by
  obtain ⟨first, wrote⟩ := (read_last (calls_whole store calls) events read).resolve_right
    fun start => unrecorded text start.2
  obtain ⟨shorter, -, rfl, -⟩ := run_before events
  obtain ⟨file, there, same, own⟩ := record_writer key (List.mem_of_getLast? wrote)
  exact ⟨first, file, there, same, writers_last wrote, List.mem_map_of_mem own⟩

/-- The content that is read was written last by a put, if any was written. -/
private theorem content_seen (events : ((calling store calls machine).run schedule).events =
      front ++ ⟨worker, .read (contentPath store id), found⟩ :: rest)
    {content : ByteArray} (read : found.disk.read (contentPath store id) = .ok content)
    (filled : writers (placeOf (contentPath store id)) front ≠ []) :
    ∃ last file, calls[last]? = some (.put id file) ∧ content = file.content ∧
      (writers (placeOf (contentPath store id)) front).getLast? = some last := by
  obtain ⟨last, wrote⟩ := (read_last (calls_whole store calls) events read).resolve_right
    fun start => filled (by rw [writers, start.1, List.map_nil])
  obtain ⟨shorter, -, rfl, -⟩ := run_before events
  obtain ⟨file, there, same⟩ := content_writer key (List.mem_of_getLast? wrote)
  exact ⟨last, file, there, same, writers_last wrote⟩

end Uploads

private theorem last_split {first last : Nat} {list : List Nat} (member : first ∈ list)
    (ends : list.getLast? = some last) :
    ∃ earlier later, list = earlier ++ first :: later ∧ first ∉ later ∧ (first = last ↔ later = []) := by
  obtain ⟨later, earlier, same, absent⟩ := List.eq_append_cons_of_mem (List.mem_reverse.mpr member)
  obtain rfl : list = earlier.reverse ++ first :: later.reverse := by
    rw [← List.reverse_reverse list, same]
    simp
  have absent : first ∉ later.reverse := by rwa [List.mem_reverse]
  refine ⟨_, _, rfl, absent, ?_⟩
  rw [List.getLast?_append_cons] at ends
  generalize later.reverse = later at ends absent
  constructor
  · rintro rfl
    cases later with
    | nil => rfl
    | cons next rest =>
      rw [List.getLast?_cons_cons] at ends
      exact absurd (List.mem_of_getLast? ends) absent
  · rintro rfl
    exact Option.some.inj ends

/-- Under every schedule of any puts and gets on a store that had no record of a file at first, whoever gets the file
gets the name and the type that one put gave to it and the content that one put gave to it, whole. -/
theorem uploads_seen {store : Store} {calls : List Call} {machine : Machine} {schedule : List Turn} {worker : Nat}
    {id : String} {file : Store.StoredFile}
    (unrecorded : ∀ content, machine.disk.at? (placeOf (recordPath store id)) ≠ some (.file content))
    (asked : calls[worker]? = some (.get id))
    (answered : ((calling store calls machine).run schedule).result worker = some (.found (.ok (some file)))) :
    ∃ first last described stored before between,
      calls[first]? = some (.put id described) ∧ calls[last]? = some (.put id stored) ∧
      file = ⟨described.name, described.contentType, stored.content⟩ ∧
      Seen store id ((calling store calls machine).run schedule).events before between worker first last := by
  obtain ⟨_, there, ran⟩ := Ran.of_run schedule worker _ (result_iff.mp answered)
  obtain rfl : (Call.get id).job store = _ := by simpa [asked] using there
  obtain ⟨key, one, two, described, stored, text, record, content, steps, read, decoded, fetched, rfl⟩ := get_course ran
  obtain ⟨before, later, events, -, mine, steps⟩ := List.filter_eq_cons_iff.mp steps
  obtain ⟨between, rest, rfl, -, also, -⟩ := List.filter_eq_cons_iff.mp steps
  obtain rfl : worker = one := (of_decide_eq_true mine).symm
  obtain rfl : worker = two := (of_decide_eq_true also).symm
  obtain ⟨first, upload, put_first, rfl, recorded, own⟩ := record_seen key unrecorded events read
  rw [recordText_read] at decoded
  obtain rfl := Except.ok.inj decoded
  simp only [Store.fileRecord, contentPath_location key] at events fetched
  have kept : first ∈ writers (placeOf (contentPath store id)) (before ++ between) := by
    rw [writers, writesTo_append, List.map_append]
    exact List.mem_append_left _ own
  have whole : ((calling store calls machine).run schedule).events =
      (before ++ ⟨worker, .read (recordPath store id), described⟩ :: between) ++
        ⟨worker, .read (contentPath store id), stored⟩ :: rest := by
    rw [List.append_assoc, List.cons_append]
    exact events
  have filled := List.ne_nil_of_mem kept
  rw [← writers_read before between worker (recordPath store id) described] at filled
  obtain ⟨last, other, put_last, rfl, stays⟩ := content_seen key whole fetched filled
  rw [writers_read] at stays
  exact ⟨first, last, upload, other, before, between, put_first, put_last, rfl,
    ⟨described, stored, rest, events⟩, recorded, own, stays, last_split kept stays⟩

def twoUploads : List Call :=
  [.put "f1" ⟨"a.mp4", "video/mp4", "one".toUTF8⟩, .put "f1" ⟨"b.wav", "audio/wav", "two".toUTF8⟩, .get "f1"]

/-- The steps of these calls on an empty disk, by the workers that take them. -/
def uploading (workers : List Nat) : Pool Answer :=
  (calling ⟨"data"⟩ twoUploads {}).run (workers.map fun worker => ⟨worker, ⟨0, 0⟩, []⟩)

theorem early_get_seen : (uploading [0, 0, 0, 0, 1, 2, 2, 1]).result 2 =
      some (.found (.ok (some ⟨"a.mp4", "video/mp4", "one".toUTF8⟩))) ∧
    ∃ before between first last,
      Seen ⟨"data"⟩ "f1" (uploading [0, 0, 0, 0, 1, 2, 2, 1]).events before between 2 first last := by
  have answered : (uploading [0, 0, 0, 0, 1, 2, 2, 1]).result 2 =
      some (.found (.ok (some ⟨"a.mp4", "video/mp4", "one".toUTF8⟩))) := by decide +kernel
  have unrecorded : ∀ content,
      ({} : Machine).disk.at? (placeOf (recordPath ⟨"data"⟩ "f1")) ≠ some (.file content) := by
    have free : ({} : Machine).disk.at? (placeOf (recordPath ⟨"data"⟩ "f1")) = none := by decide +kernel
    simp [free]
  obtain ⟨first, last, -, -, before, between, -, -, -, seen⟩ := uploads_seen unrecorded rfl answered
  exact ⟨answered, before, between, first, last, seen⟩

/-- An upload whose content is written between that of another one and a get, and whose record is not: what is got is
the one's content under the other's name. -/
theorem late_content_got : (uploading [0, 0, 0, 0, 1, 1, 2, 2]).result 2 =
      some (.found (.ok (some ⟨"a.mp4", "video/mp4", "two".toUTF8⟩))) ∧
    ∀ file, .put "f1" file ∈ twoUploads → file ≠ ⟨"a.mp4", "video/mp4", "two".toUTF8⟩ := by
  refine ⟨by decide +kernel, fun file member => ?_⟩
  simp only [twoUploads, List.mem_cons, Call.put.injEq, true_and, reduceCtorEq, List.not_mem_nil, or_false] at member
  rcases member with rfl | rfl <;> decide +kernel

end Montage.Proofs.StoreUploads
