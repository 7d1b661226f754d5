import Montage.Machine.Job
import Montage.Proofs.DiskPlaces

/-! A disk is a tree: what is there is in a directory. Every operation keeps it so, and in a tree nothing
lies below a place where nothing is. -/

namespace Montage.Proofs.DiskTree
open DiskFrame DiskPlaces

def Rooted (disk : Disk) : Prop :=
  ∀ place name entry, disk.at? (place ++ [name]) = some entry → disk.at? place = some .directory

theorem nothing_below {disk : Disk} (rooted : Rooted disk) {place other : List String} (free : disk.at? place = none)
    (below : place <+: other) : disk.at? other = none := by
  obtain ⟨rest, rfl⟩ := below
  induction rest generalizing place with
  | nil => simpa using free
  | cons name rest ih =>
    rw [List.append_cons]
    apply ih
    cases there : disk.at? (place ++ [name]) with
    | none => rfl
    | some entry => cases free.symm.trans (rooted place name entry there)

/-- On a way that never goes up and leads to nothing there is no file. -/
theorem walk_missing {disk : Disk} (rooted : Rooted disk) {here parts : List String} (straight : ".." ∉ parts)
    (missing : disk.walk here parts = .error .notFound ∨
      disk.walk here parts = .ok (lead here parts) ∧ disk.at? (lead here parts) = none) :
    disk.at? (lead here parts) = none ∧
      ∀ front, front <+: parts → ∀ content, disk.at? (lead here front) ≠ some (.file content) := by
  induction parts generalizing here with
  | nil =>
    obtain failed | ⟨-, free⟩ := missing
    · cases failed
    · refine ⟨free, fun front leading content there => ?_⟩
      obtain rfl := List.prefix_nil.mp leading
      cases free.symm.trans there
  | cons part rest ih =>
    cases start : disk.at? here with
    | none =>
      have below {parts : List String} (straight : ".." ∉ parts) : disk.at? (lead here parts) = none :=
        nothing_below rooted start (lead_below straight here)
      refine ⟨below straight, fun front leading content there => ?_⟩
      cases (below fun up => straight (leading.subset up)).symm.trans there
    | some entry =>
      cases entry with
      | file content => simp [Disk.walk, start] at missing
      | directory =>
        have later : ".." ∉ rest := fun up => straight (List.mem_cons_of_mem _ up)
        have down : part ≠ ".." := fun up => straight (up ▸ List.mem_cons_self)
        have further (next : List String) (one : ∀ front, lead here (part :: front) = lead next front)
            (walked : disk.walk here (part :: rest) = disk.walk next rest) :
            disk.at? (lead here (part :: rest)) = none ∧
              ∀ front, front <+: part :: rest → ∀ content, disk.at? (lead here front) ≠ some (.file content) := by
          rw [one, walked] at missing
          obtain ⟨free, clear⟩ := ih later missing
          refine ⟨(one rest).symm ▸ free, fun front leading content there => ?_⟩
          cases front with
          | nil => cases start.symm.trans there
          | cons first front =>
            obtain ⟨rfl, later⟩ := List.cons_prefix_cons.mp leading
            rw [one] at there
            exact clear front later content there
        by_cases skip : part = "" ∨ part = "."
        · exact further here (fun front => by simp only [lead, if_pos skip])
            (by simp only [Disk.walk, start, if_pos skip])
        · by_cases long : Disk.longestName < part.utf8ByteSize
          · simp [Disk.walk, start, if_neg skip, if_neg down, if_pos long] at missing
          · exact further (here ++ [part]) (fun front => by simp only [lead, if_neg skip, if_neg down])
              (by simp only [Disk.walk, start, if_neg skip, if_neg down, if_neg long])

theorem key_of_at? {disk : Disk} {place : List String} {entry : Entry} (there : disk.at? place = some entry)
    (inside : place ≠ []) : place ∈ disk.entries.map Prod.fst := by
  rw [Disk.at?, if_neg inside, List.lookup_eq_some_iff] at there
  obtain ⟨front, rest, same, -⟩ := there
  rw [same]
  simp

/-- It is enough to look at the entries. -/
theorem rooted_of_entries {disk : Disk}
    (housed : ∀ key ∈ disk.entries.map Prod.fst, disk.at? key.dropLast = some .directory) : Rooted disk := by
  intro place name entry there
  have inside : place ++ [name] ≠ [] := List.append_ne_nil_of_right_ne_nil _ (List.cons_ne_nil _ _)
  have directory := housed _ (key_of_at? there inside)
  rwa [List.dropLast_concat] at directory

/-- The directory that a place is in is there. -/
def Housed (disk : Disk) (place : List String) : Prop :=
  place = [] ∨ disk.at? place.dropLast = some .directory

theorem housed_name {disk : Disk} {place : List String} (name : String) (there : disk.at? place = some .directory) :
    Housed disk (place ++ [name]) := by
  right
  rw [List.dropLast_concat]
  exact there

private theorem housed_up {disk : Disk} (rooted : Rooted disk) {place : List String}
    (there : disk.at? place = some .directory) : Housed disk place := by
  rcases List.eq_nil_or_concat place with rfl | ⟨front, name, rfl⟩
  · exact .inl rfl
  · rw [List.concat_eq_append] at there ⊢
    exact housed_name name (rooted _ _ _ there)

/-- A directory leads up to a directory. -/
private theorem directory_up {disk : Disk} (rooted : Rooted disk) {place : List String}
    (there : disk.at? place = some .directory) : disk.at? place.dropLast = some .directory := by
  rcases housed_up rooted there with rfl | up
  · exact there
  · exact up

private theorem walk_housed {disk : Disk} (rooted : Rooted disk) {here parts place : List String}
    (start : Housed disk here)
    (found : disk.walk here parts = .ok place) : Housed disk place := by
  induction parts generalizing here with
  | nil =>
    cases found
    exact start
  | cons part rest ih =>
    unfold Disk.walk at found
    split at found
    · cases found
    · cases found
    next there =>
      split at found
      · exact ih start found
      · split at found
        · exact ih (housed_up rooted (directory_up rooted there)) found
        · split at found
          · cases found
          · exact ih (housed_name part there) found

theorem locate_housed {disk : Disk} (rooted : Rooted disk) {path : String} {place : List String}
    (found : disk.locate path = .ok place) : Housed disk place := by
  unfold Disk.locate at found
  split at found
  · cases found
  · exact walk_housed rooted (.inl rfl) found

theorem rooted_put {disk : Disk} (rooted : Rooted disk) {place : List String} {entry : Entry} (housed : Housed disk place)
    (keeps : Firm disk (disk.put place entry)) : Rooted (disk.put place entry) := by
  intro other name old there
  apply keeps
  by_cases new : other ++ [name] = place
  · rcases housed with rfl | inside
    · cases List.append_ne_nil_of_right_ne_nil other (by simp) new
    · rw [← new, List.dropLast_concat] at inside
      exact inside
  · rw [at?_put_other disk entry new] at there
    exact rooted other name old there

private theorem rooted_erase {disk : Disk} (rooted : Rooted disk) {place : List String} {content : ByteArray}
    (file : disk.at? place = some (.file content)) : Rooted (disk.erase place) := by
  intro other name entry there
  have inside : place ≠ [] := inside_of_not_directory (by rw [file]; simp)
  have apart : other ++ [name] ≠ place := by
    rintro rfl
    rw [at?_erase_same disk inside] at there
    cases there
  rw [at?_erase_other disk apart] at there
  have up := rooted other name entry there
  have apart : other ≠ place := by
    rintro rfl
    cases up.symm.trans file
  rw [at?_erase_other disk apart]
  exact up

private theorem rooted_removeTree {disk : Disk} (rooted : Rooted disk) (path : String) :
    Rooted (disk.removeTree path) := by
  intro other name entry there
  by_cases below : placeOf path <+: other ++ [name]
  · cases found : disk.locate path with
    | error fault =>
      simp only [Disk.removeTree, found] at there ⊢
      exact rooted other name entry there
    | ok root =>
      obtain rfl := locate_placeOf found
      rw [removeTree_inside found below (by simp)] at there
      cases there
  · rw [removeTree_outside disk below] at there
    have above : ¬ placeOf path <+: other := fun within => below (within.trans (List.prefix_append _ _))
    rw [removeTree_outside disk above]
    exact rooted other name entry there

private theorem rooted_makeWay {disk : Disk} (rooted : Rooted disk) {here : List String}
    (there : disk.at? here = some .directory) (parts : List String) : Rooted (disk.makeWay here parts).1 := by
  induction parts generalizing disk here with
  | nil => exact rooted
  | cons part rest ih =>
    unfold Disk.makeWay
    split
    · exact ih rooted there
    · split
      · exact ih rooted (directory_up rooted there)
      · split
        · exact rooted
        · split
          next down => exact ih rooted down
          · exact rooted
          next free =>
            have made := firm_put_directory disk (here ++ [part])
            exact ih (rooted_put rooted (housed_name part there) made) (at?_put_directory disk _)

private theorem rooted_makeDirectories {disk : Disk} (rooted : Rooted disk) (path : String) :
    Rooted (disk.makeDirectories path).1 := by
  unfold Disk.makeDirectories
  split
  · exact rooted
  · exact rooted_makeWay rooted rfl _

private theorem rooted_write {disk after : Disk} (rooted : Rooted disk) {path : String} {content : ByteArray}
    (written : disk.write path content = .ok after) : Rooted after := by
  obtain ⟨place, found, file, rfl⟩ := write_ok written
  exact rooted_put rooted (locate_housed rooted found) (firm_put_file content file)

private theorem rooted_createNew {disk after : Disk} (rooted : Rooted disk) {path : String}
    (created : disk.createNew path = .ok after) : Rooted after := by
  obtain ⟨place, found, free, rfl⟩ := createNew_ok created
  exact rooted_put rooted (locate_housed rooted found) (extends_put _ free).firm

private theorem rooted_append {disk after : Disk} (rooted : Rooted disk) {path : String} {content : ByteArray}
    (appended : disk.append path content = .ok after) : Rooted after := by
  obtain ⟨place, before, found, there, rfl⟩ := append_ok appended
  exact rooted_put rooted (locate_housed rooted found) (firm_put_file _ (by rw [there]; simp))

private theorem rooted_remove {disk after : Disk} (rooted : Rooted disk) {path : String}
    (removed : disk.remove path = .ok after) : Rooted after := by
  obtain ⟨place, content, -, there, rfl⟩ := remove_ok removed
  exact rooted_erase rooted there

theorem rooted_change {machine : Machine} (rooted : Rooted machine.disk) {result : Except DiskFault Disk}
    (keeps : ∀ after, result = .ok after → Rooted after) : Rooted (machine.change result).2.disk := by
  cases result with
  | error fault => exact rooted
  | ok after => exact keeps after rfl

/-- A program leaves the disk as it was, or with what it wrote to the file that its last argument names. -/
theorem runProgram_writes (machine : Machine) (name : String) (arguments : List String) :
    (machine.runProgram name arguments).2.disk = machine.disk ∨
      ∃ path content, arguments.getLast? = some path ∧
        machine.disk.write path content = .ok (machine.runProgram name arguments).2.disk := by
  unfold Machine.runProgram
  split
  · exact .inl rfl
  · split
    · exact .inl rfl
    · split
      · exact .inl rfl
      · simp only
        split
        next content path writes last =>
          cases written : machine.disk.write path content with
          | ok disk => exact .inr ⟨path, content, last, written⟩
          | error fault => exact .inl rfl
        · exact .inl rfl

private theorem rooted_perform {machine : Machine} (rooted : Rooted machine.disk) (action : Action) :
    Rooted (machine.perform action).2.disk := by
  cases action with
  | findProgram | read | isThere | size | now | freshId => exact rooted
  | makeDirectories path =>
    have made := rooted_makeDirectories rooted path
    simp only [Machine.perform]
    split
    next same => rwa [same] at made
    next same => rwa [same] at made
  | makeWorkspace parent =>
    simp only [Machine.perform, Machine.makeWorkspace]
    split
    · exact rooted
    next found => exact rooted_put rooted (locate_housed rooted found) (firm_put_directory _ _)
  | write path content => exact rooted_change rooted fun after written => rooted_write rooted written
  | createNew path => exact rooted_change rooted fun after created => rooted_createNew rooted created
  | append path content => exact rooted_change rooted fun after appended => rooted_append rooted appended
  | remove path => exact rooted_change rooted fun after removed => rooted_remove rooted removed
  | removeTree path => exact rooted_removeTree rooted path
  | runProgram name arguments limit =>
    rcases runProgram_writes machine name arguments with same | ⟨path, content, -, written⟩
    · simp only [Machine.perform, same]
      exact rooted
    · exact rooted_write rooted written

theorem rooted_run (job : Job α) {machine : Machine} (rooted : Rooted machine.disk) : Rooted (job.run machine).2.disk := by
  induction job generalizing machine with
  | done => exact rooted
  | act action next ih => exact ih _ (rooted_perform rooted action)

end Montage.Proofs.DiskTree
