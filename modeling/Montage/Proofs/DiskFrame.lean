import Montage.Machine.Disk

/-! What an operation on a disk touches. Each changes the entry at one place or adds entries, and none
turns a directory into a file, so that paths keep leading where they led. -/

namespace Montage.Proofs.DiskFrame

/-- A disk has all that another one has, as it was there. -/
def Extends (before after : Disk) : Prop :=
  ∀ place entry, before.at? place = some entry → after.at? place = some entry

theorem Extends.refl (disk : Disk) : Extends disk disk :=
  fun _ _ there => there

theorem Extends.trans {first second third : Disk} (one : Extends first second) (two : Extends second third) :
    Extends first third :=
  fun place entry there => two place entry (one place entry there)

def Firm (before after : Disk) : Prop :=
  ∀ place, before.at? place = some .directory → after.at? place = some .directory

theorem Extends.firm {before after : Disk} (extended : Extends before after) : Firm before after :=
  fun place there => extended place .directory there

theorem at?_root (disk : Disk) : disk.at? [] = some .directory :=
  rfl

theorem lookup_without (entries : List (List String × Entry)) {place other : List String} (apart : other ≠ place) :
    (entries.filter (·.1 ≠ place)).lookup other = entries.lookup other := by
  induction entries with
  | nil => rfl
  | cons head rest ih =>
    obtain ⟨key, entry⟩ := head
    by_cases dropped : key = place
    · subst dropped
      have passed : (other == key) = false := beq_eq_false_iff_ne.mpr apart
      rw [List.lookup_cons, passed]
      simpa using ih
    · rw [List.filter_cons_of_pos (by simpa using dropped), List.lookup_cons, List.lookup_cons, ih]

theorem at?_put_other (disk : Disk) {place other : List String} (entry : Entry) (apart : other ≠ place) :
    (disk.put place entry).at? other = disk.at? other := by
  have passed : (other == place) = false := by simpa using apart
  simp only [Disk.at?, Disk.put, List.lookup_cons, passed, lookup_without disk.entries apart]

theorem at?_put_same (disk : Disk) {place : List String} (entry : Entry) (inside : place ≠ []) :
    (disk.put place entry).at? place = some entry := by
  simp [Disk.at?, Disk.put, inside]

theorem at?_put_directory (disk : Disk) (place : List String) :
    (disk.put place .directory).at? place = some .directory := by
  by_cases root : place = []
  · simp [root, at?_root]
  · exact at?_put_same disk .directory root

theorem firm_put_directory (disk : Disk) (place : List String) : Firm disk (disk.put place .directory) := by
  intro other there
  by_cases same : other = place
  · subst same
    exact at?_put_directory disk other
  · rw [at?_put_other disk .directory same]
    exact there

theorem extends_put {disk : Disk} {place : List String} (entry : Entry) (free : disk.at? place = none) :
    Extends disk (disk.put place entry) := by
  intro other old there
  rw [at?_put_other disk entry]
  · exact there
  · rintro rfl
    cases free.symm.trans there

theorem walk_append (disk : Disk) (here : List String) (first second : List String) :
    disk.walk here (first ++ second) = (disk.walk here first).bind fun place => disk.walk place second := by
  induction first generalizing here with
  | nil => rfl
  | cons part rest ih =>
    simp only [List.cons_append, Disk.walk]
    split
    · rfl
    · rfl
    · split
      · exact ih _
      · split
        · exact ih _
        · split
          · rfl
          · exact ih _

/-- A way that leads somewhere goes on leading there as long as directories stay. -/
private theorem walk_firm {before after : Disk} (firm : Firm before after) {here parts place : List String}
    (found : before.walk here parts = .ok place) : after.walk here parts = .ok place := by
  induction parts generalizing here with
  | nil => exact found
  | cons part rest ih =>
    unfold Disk.walk at found ⊢
    split at found
    · cases found
    · cases found
    next there =>
      simp only [firm here there]
      split at found
      next skip => simpa only [if_pos skip] using ih found
      next keep =>
        simp only [if_neg keep]
        split at found
        next up => simpa only [if_pos up] using ih found
        next down =>
          simp only [if_neg down]
          split at found
          · cases found
          next fits => simpa only [if_neg fits] using ih found

theorem locate_firm {before after : Disk} (firm : Firm before after) {path : String} {place : List String}
    (found : before.locate path = .ok place) : after.locate path = .ok place := by
  unfold Disk.locate at found ⊢
  split at found
  · cases found
  · exact walk_firm firm found

/-- A disk has a directory wherever another one has, and a file wherever that one has. -/
structure Persists (before after : Disk) : Prop where
  firm : Firm before after
  file : ∀ {place content}, before.at? place = some (.file content) → ∃ other, after.at? place = some (.file other)

/-- A way that is barred stays barred. Only what is missing may be there later. -/
private theorem walk_barred {before after : Disk} (persists : Persists before after) {here parts : List String}
    {fault : DiskFault}
    (barred : before.walk here parts = .error fault) (other : fault ≠ .notFound) :
    after.walk here parts = .error fault := by
  induction parts generalizing here with
  | nil => cases barred
  | cons part rest ih =>
    unfold Disk.walk at barred ⊢
    split at barred
    · cases barred
      exact absurd rfl other
    next there =>
      obtain ⟨_, still⟩ := persists.file there
      simpa only [still] using barred
    next there =>
      simp only [persists.firm here there]
      split at barred
      next skip => simpa only [if_pos skip] using ih barred
      next keep =>
        simp only [if_neg keep]
        split at barred
        next up => simpa only [if_pos up] using ih barred
        next down =>
          simp only [if_neg down]
          split at barred
          next long => simpa only [if_pos long] using barred
          next fits => simpa only [if_neg fits] using ih barred

private theorem locate_barred {before after : Disk} (persists : Persists before after) {path : String}
    {fault : DiskFault}
    (barred : before.locate path = .error fault) (other : fault ≠ .notFound) : after.locate path = .error fault := by
  unfold Disk.locate at barred ⊢
  split at barred
  · exact barred
  · exact walk_barred persists barred other

theorem read_of_at {disk : Disk} {path : String} {place : List String} {content : ByteArray}
    (found : disk.locate path = .ok place) (there : disk.at? place = some (.file content)) :
    disk.read path = .ok content := by
  simp [Disk.read, Disk.find, found, there]

theorem read_ok {disk : Disk} {path : String} {content : ByteArray} (read : disk.read path = .ok content) :
    ∃ place, disk.locate path = .ok place ∧ disk.at? place = some (.file content) := by
  unfold Disk.read Disk.find at read
  cases found : disk.locate path with
  | error fault => simp [found] at read
  | ok place =>
    refine ⟨place, rfl, ?_⟩
    rcases there : disk.at? place with _ | _ | held
    · simp [found, there] at read
    · simp [found, there] at read
    · simp only [found, there, Except.ok.injEq] at read
      rw [read]

/-- A path that cannot be read stays so, unless nothing was found there. -/
theorem read_barred {before after : Disk} (persists : Persists before after) {path : String} {fault : DiskFault}
    (barred : before.read path = .error fault) (other : fault ≠ .notFound) : after.read path = .error fault := by
  unfold Disk.read Disk.find at barred ⊢
  cases located : before.locate path with
  | error given =>
    simp only [located] at barred
    cases barred
    simp only [locate_barred persists located other]
  | ok place =>
    simp only [locate_firm persists.firm located]
    rcases there : before.at? place with _ | _ | content
    · simp only [located, there] at barred
      cases barred
      exact absurd rfl other
    · simpa only [located, there, persists.firm place there] using barred
    · simp only [located, there] at barred
      cases barred

theorem write_ok {disk after : Disk} {path : String} {content : ByteArray}
    (written : disk.write path content = .ok after) :
    ∃ place, disk.locate path = .ok place ∧ disk.at? place ≠ some .directory ∧
      after = disk.put place (.file content) := by
  unfold Disk.write at written
  split at written
  · cases written
  next place found =>
    split at written
    · cases written
    next file =>
      cases written
      exact ⟨place, found, file, rfl⟩

theorem createNew_ok {disk after : Disk} {path : String} (created : disk.createNew path = .ok after) :
    ∃ place, disk.locate path = .ok place ∧ disk.at? place = none ∧ after = disk.put place (.file .empty) := by
  unfold Disk.createNew at created
  split at created
  · cases created
  next place found =>
    split at created
    · cases created
    next free =>
      cases created
      exact ⟨place, found, free, rfl⟩

theorem append_ok {disk after : Disk} {path : String} {content : ByteArray}
    (appended : disk.append path content = .ok after) :
    ∃ place before, disk.locate path = .ok place ∧ disk.at? place = some (.file before) ∧
      after = disk.put place (.file (before ++ content)) := by
  unfold Disk.append at appended
  split at appended
  · cases appended
  next place found =>
    split at appended
    · cases appended
    · cases appended
    next before there =>
      cases appended
      exact ⟨place, before, found, there, rfl⟩

theorem inside_of_not_directory {disk : Disk} {place : List String} (file : disk.at? place ≠ some .directory) :
    place ≠ [] := by
  rintro rfl
  exact file rfl

theorem firm_put_file {disk : Disk} {place : List String} (content : ByteArray)
    (file : disk.at? place ≠ some .directory) : Firm disk (disk.put place (.file content)) := by
  intro other there
  rw [at?_put_other]
  · exact there
  · rintro rfl
    exact file there

/-- What is written is read. -/
theorem read_of_write {disk after : Disk} {path : String} {content : ByteArray}
    (written : disk.write path content = .ok after) : after.read path = .ok content := by
  obtain ⟨place, found, file, rfl⟩ := write_ok written
  have there := at?_put_same disk (.file content) (inside_of_not_directory file)
  exact read_of_at (locate_firm (firm_put_file content file) found) there

/-- Making directories adds to the disk, even where it comes to a fault. -/
theorem extends_makeWay (disk : Disk) (here parts : List String) :
    Extends disk (disk.makeWay here parts).1 := by
  induction parts generalizing disk here with
  | nil => exact .refl disk
  | cons part rest ih =>
    unfold Disk.makeWay
    split
    · exact ih disk here
    · split
      · exact ih disk here.dropLast
      · split
        · exact .refl disk
        · split
          · exact ih disk (here ++ [part])
          · exact .refl disk
          next free => exact (extends_put .directory free).trans (ih _ (here ++ [part]))

theorem extends_makeDirectories (disk : Disk) (path : String) : Extends disk (disk.makeDirectories path).1 := by
  unfold Disk.makeDirectories
  split
  · exact .refl disk
  · exact extends_makeWay disk [] _

end Montage.Proofs.DiskFrame
