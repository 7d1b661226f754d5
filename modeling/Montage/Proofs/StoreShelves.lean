import Montage.Proofs.StoreKept

/-! The files of a store as a table of contents by directories and names. On a disk where nothing lies below the root
the table is empty, and what is written into a directory changes it at one name. -/

namespace Montage.Proofs.StoreShelves
open JobLogic JobFrame DiskFrame DiskPlaces DiskTree PathJoin StoreKept

/-- The contents of files by the directories below the root and the names in them. -/
abbrev Table := String → String → Option ByteArray

def Table.keep (table : Table) (directory name : String) (content : ByteArray) : Table := fun other file =>
  if other = directory ∧ file = name then some content else table other file

def shelved (store : Store) (directory name : String) : String :=
  Path.join (Path.join store.root directory) name

/-- The root of a store is there, or it can be made on a way that never goes up. -/
def Level (store : Store) (disk : Disk) : Prop :=
  disk.find store.root = .ok .directory ∨ ".." ∉ Path.parts store.root

/-- Nothing lies below the root of a store. The root is there, or it can be made on a way that never goes up. -/
structure EmptyRoot (store : Store) (disk : Disk) : Prop where
  empty : ∀ name rest, disk.at? (placeOf store.root ++ name :: rest) = none
  way : ∀ place, Through store.root place → ∀ content, disk.at? place ≠ some (.file content)
  straight : disk.find store.root = .ok .directory ∨ ".." ∉ Path.parts store.root

/-- A disk holds the files of a table below the root of a store, and no others in the directories there. -/
structure Holds (store : Store) (table : Table) (disk : Disk) : Prop where
  kept : ∀ {directory name content}, Plain directory → Plain name → table directory name = some content →
    disk.read (shelved store directory name) = .ok content
  free : ∀ {directory name}, table directory name = none → disk.at? (placeOf store.root ++ [directory, name]) = none
  rooms : ∀ directory content, disk.at? (placeOf store.root ++ [directory]) ≠ some (.file content)
  way : ∀ place, Through store.root place → ∀ content, disk.at? place ≠ some (.file content)
  apart : ∀ place, Through store.root place → ∀ name rest, place ≠ placeOf store.root ++ name :: rest

section Setting
variable {store : Store} {table : Table} {disk : Disk} {directory name : String} {content : ByteArray}

theorem placeOf_shelved (room : Plain directory) (plain : Plain name) :
    placeOf (shelved store directory name) = placeOf store.root ++ [directory, name] := by
  rw [shelved, placeOf_join _ plain, placeOf_join _ room, List.append_assoc]
  rfl

private theorem parts_shelved (store : Store) (room : Plain directory) (plain : Plain name) :
    ∃ front, Path.parts (shelved store directory name) = front ++ [directory, name] ∧
      front <+: Path.parts store.root ∧ lead [] front = placeOf store.root := by
  have names : Path.parts (directory ++ "/" ++ name) = [directory, name] := by
    rw [parts_slash, parts_plain room, parts_plain plain]
    rfl
  have behind := parts_behind store.root (relative_below room name)
  rwa [join_below store.root room plain, names] at behind

private theorem way_directory (level : Level store disk) {place : List String} (through : Through store.root place)
    {name : String} {rest : List String} (below : place = placeOf store.root ++ name :: rest) :
    disk.at? place = some .directory := by
  subst below
  have longer : ¬ placeOf store.root ++ name :: rest <+: placeOf store.root := by
    intro within
    have length := within.length_le
    simp only [List.length_append, List.length_cons] at length
    omega
  rcases level with there | straight
  · exact find_through there through
  · exact absurd (through_straight straight through) longer

theorem shelf_directory (level : Level store disk) (room : Plain directory) {place : List String}
    (through : Through (Path.join store.root directory) place) {other : String}
    (below : place = placeOf store.root ++ [other, name]) : disk.at? place = some .directory := by
  rcases through_join room through with through | same
  · exact way_directory level through below
  · cases List.append_cancel_left (below.symm.trans same)

private theorem root_apart (root : EmptyRoot store disk) {place : List String} (through : Through store.root place)
    (name : String) (rest : List String) : place ≠ placeOf store.root ++ name :: rest := by
  rintro rfl
  cases (root.empty name rest).symm.trans (way_directory root.straight through rfl)

/-- Where a file is not found nothing is, and no file stands on the way to it. -/
theorem shelved_missing (rooted : Rooted disk) (level : Level store disk) (room : Plain directory) (plain : Plain name)
    (fits : Fits (shelved store directory name)) (missing : disk.read (shelved store directory name) = .error .notFound) :
    disk.at? (placeOf store.root ++ [directory, name]) = none ∧
      ∀ place, Through (shelved store directory name) place → ∀ content, disk.at? place ≠ some (.file content) := by
  have walked := walk_of_read_missing fits missing
  rw [placeOf_shelved room plain] at walked
  obtain ⟨front, parts, leading, leads⟩ := parts_shelved store room plain
  have straight : ".." ∉ [directory, name] := by simp [room.not_up.symm, plain.not_up.symm]
  have ends (here : List String) : lead here [directory, name] = here ++ [directory, name] := by
    rw [← List.singleton_append, lead_append, lead_name _ room, lead_name _ plain, List.append_assoc]
  rcases level with there | level
  · -- The way to the root may go up, but it is walked; from there on it does not go up.
    rw [parts, walk_append, find_walk there leading, leads] at walked
    obtain ⟨free, clear⟩ := walk_missing rooted straight (by rwa [ends])
    refine ⟨by rwa [ends] at free, ?_⟩
    rintro place ⟨before, ahead, rfl⟩ content file
    rw [parts] at ahead
    rcases List.prefix_or_prefix_of_prefix ahead (List.prefix_append front _) with above | ⟨further, rfl⟩
    · cases (find_through there ⟨before, above.trans leading, rfl⟩).symm.trans file
    · rw [lead_append, leads] at file
      exact clear further ((List.prefix_append_right_inj front).mp ahead) content file
  · have never : ".." ∉ Path.parts (shelved store directory name) := by
      rw [parts, List.mem_append]
      rintro (up | up)
      · exact level (leading.subset up)
      · exact straight up
    have ends : lead [] (Path.parts (shelved store directory name)) = placeOf store.root ++ [directory, name] :=
      placeOf_shelved room plain
    obtain ⟨free, clear⟩ := walk_missing rooted never (by rwa [ends])
    refine ⟨by rwa [ends] at free, ?_⟩
    rintro place ⟨before, ahead, rfl⟩ content
    exact clear before ahead content

theorem holds_empty (root : EmptyRoot store disk) : Holds store (fun _ _ => none) disk where
  kept _ _ held := nomatch held
  free {directory name} _ := root.empty directory [name]
  rooms directory _ there := nomatch (root.empty directory []).symm.trans there
  way := root.way
  apart _ through := root_apart root through

theorem read_free (holds : Holds store table disk) (room : Plain directory) (plain : Plain name)
    (absent : table directory name = none) (fits : Fits (shelved store directory name)) :
    disk.read (shelved store directory name) = .error .notFound := by
  have free := holds.free absent
  refine read_missing fits ?_ (by rw [placeOf_shelved room plain]; exact free)
  intro place through content there
  rcases through_join plain through with through | rfl
  · rcases through_join room through with through | rfl
    · exact holds.way place through content there
    · exact holds.rooms directory content there
  · rw [placeOf_join _ room, List.append_assoc] at there
    cases free.symm.trans there

theorem holds_written {machine after : Machine} (holds : Holds store table machine.disk) (room : Plain directory)
    (plain : Plain name)
    (written : (Store.writeInto (Path.join store.root directory) name content).run.run machine = (.ok (), after)) :
    Holds store (table.keep directory name content) after.disk := by
  have frame := run_frame (writeInto_confined (Path.join store.root directory) name content) machine
  have ended : (Store.writeInto (Path.join store.root directory) name content).run.run machine = (.ok (), after) :=
    written
  rw [ended] at frame
  have target : placeOf (Path.join (Path.join store.root directory) name) = placeOf store.root ++ [directory, name] :=
    placeOf_shelved room plain
  have unchanged {place : List String} (other : place ≠ placeOf store.root ++ [directory, name]) :
      after.disk.at? place = machine.disk.at? place ∨ Through (Path.join store.root directory) place ∧
        machine.disk.at? place = none ∧ after.disk.at? place = some .directory :=
    frame.same place (target ▸ other)
  have beside {room_of name_of : String} (different : ¬ (room_of = directory ∧ name_of = name)) :
      placeOf store.root ++ [room_of, name_of] ≠ placeOf store.root ++ [directory, name] := by
    intro same
    have names := List.append_cancel_left same
    simp only [List.cons.injEq, and_true] at names
    exact different names
  have no_file {place : List String} (other : place ≠ placeOf store.root ++ [directory, name])
      (before : ∀ content, machine.disk.at? place ≠ some (.file content)) (content : ByteArray) :
      after.disk.at? place ≠ some (.file content) := by
    rcases unchanged other with same | ⟨-, -, made⟩
    · rw [same]
      exact before content
    · rw [made]
      exact nofun
  constructor
  case kept =>
    intro room_of name_of text other_room other_plain held
    unfold Table.keep at held
    split at held
    next same =>
      obtain ⟨rfl, rfl⟩ := same
      cases held
      exact read_written written
    next different =>
      refine read_beside written ?_ (holds.kept other_room other_plain held)
      rw [target, placeOf_shelved other_room other_plain]
      exact beside different
  case free =>
    intro room_of name_of absent
    unfold Table.keep at absent
    split at absent
    · cases absent
    next different =>
      have free := holds.free absent
      rcases unchanged (beside different) with same | ⟨through, -, -⟩
      · exact same.trans free
      · rcases through_join room through with through | same
        · exact absurd rfl (holds.apart _ through room_of [name_of])
        · cases List.append_cancel_left same
  case rooms =>
    intro room_of
    refine no_file (fun same => ?_) (holds.rooms room_of)
    cases List.append_cancel_left same
  case way =>
    intro place through
    exact no_file (holds.apart place through directory [name]) (holds.way place through)
  case apart => exact holds.apart

end Setting

end Montage.Proofs.StoreShelves
