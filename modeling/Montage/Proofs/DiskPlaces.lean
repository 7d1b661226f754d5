import Montage.Proofs.PathJoin

/-! Where paths lead. There are no links, so that a path ends at one place whatever the disk holds, and
the disk only decides whether it can be walked. What an operation changes is told by its path alone. -/

namespace Montage.Proofs.DiskPlaces
open DiskFrame PathJoin

def lead (here : List String) : List String → List String
  | [] => here
  | part :: rest =>
    if part = "" ∨ part = "." then lead here rest
    else if part = ".." then lead here.dropLast rest
    else lead (here ++ [part]) rest

def placeOf (path : String) : List String :=
  lead [] (Path.parts path)

/-- A path leads through a place on its way, or to it in the end. -/
def Through (path : String) (place : List String) : Prop :=
  ∃ front, front <+: Path.parts path ∧ lead [] front = place

theorem lead_append (here first second : List String) :
    lead here (first ++ second) = lead (lead here first) second := by
  induction first generalizing here with
  | nil => rfl
  | cons part rest ih =>
    simp only [List.cons_append, lead]
    split
    · exact ih here
    · split
      · exact ih here.dropLast
      · exact ih (here ++ [part])

theorem lead_name (here : List String) {name : String} (plain : Plain name) : lead here [name] = here ++ [name] := by
  simp [lead, plain.some_char, plain.not_here, plain.not_up]

theorem placeOf_components (path : String) : placeOf path = lead [] (Path.components path) := by
  have skipped : ∀ here parts, lead here (parts.filter fun part => part ≠ "" ∧ part ≠ ".") = lead here parts := by
    intro here parts
    induction parts generalizing here with
    | nil => rfl
    | cons part rest ih =>
      by_cases skip : part = "" ∨ part = "."
      · rw [List.filter_cons_of_neg (by simpa using Decidable.or_iff_not_imp_left.mp skip), ih]
        simp [lead, skip]
      · rw [List.filter_cons_of_pos (by simpa using skip)]
        simp only [lead, ih]
  exact (skipped [] (Path.parts path)).symm

/-- Below a directory there are parts more, behind parts that lead to it, however its path ends. -/
theorem parts_behind (directory : String) {path : String} (relative : path.startsWith "/" = false) :
    ∃ front, Path.parts (Path.join directory path) = front ++ Path.parts path ∧ front <+: Path.parts directory ∧
      lead [] front = placeOf directory := by
  by_cases empty : directory = ""
  · subst empty
    refine ⟨[], ?_, List.nil_prefix, by decide⟩
    simp [Path.join, relative]
  · have filled : directory.isEmpty = false := by simpa using empty
    cases slash : directory.endsWith "/" with
    | false =>
      have joined : Path.join directory path = directory ++ "/" ++ path := by
        simp [Path.join, relative, filled, slash]
      exact ⟨Path.parts directory, by rw [joined, parts_slash], List.prefix_rfl, rfl⟩
    | true =>
      have joined : Path.join directory path = directory ++ path := by
        simp [Path.join, relative, slash]
      obtain ⟨before, rfl⟩ : ∃ before : String, directory = before ++ "/" := by
        rw [String.endsWith_eq_endsWith_toSlice, String.Slice.endsWith_string_iff] at slash
        obtain ⟨before, same⟩ := slash
        refine ⟨String.ofList before, String.toList_inj.mp ?_⟩
        rw [String.toList_append, String.toList_ofList, same, String.copy_toSlice]
      have ends : Path.parts (before ++ "/") = Path.parts before ++ [""] := by
        simpa [Path.parts, Text.pieces] using parts_slash before ""
      refine ⟨Path.parts before, by rw [joined, parts_slash], ?_, ?_⟩
      · rw [ends]
        exact List.prefix_append _ _
      · rw [placeOf, ends, lead_append]
        simp [lead]

private theorem parts_below (directory : String) {name : String} (plain : Plain name) :
    ∃ front, Path.parts (Path.join directory name) = front ++ [name] ∧ front <+: Path.parts directory ∧
      lead [] front = placeOf directory := by
  have behind := parts_behind directory (relative plain)
  rwa [parts_plain plain] at behind

theorem placeOf_join (directory : String) {name : String} (plain : Plain name) :
    placeOf (Path.join directory name) = placeOf directory ++ [name] := by
  obtain ⟨front, parts, -, leads⟩ := parts_below directory plain
  rw [placeOf, parts, lead_append, leads, lead_name _ plain]

theorem placeOf_below (directory : String) {name : String} (plain : Plain name) :
    placeOf directory <+: placeOf (Path.join directory name) := by
  rw [placeOf_join directory plain]
  exact List.prefix_append _ _

theorem through_join {directory name : String} {place : List String} (plain : Plain name)
    (through : Through (Path.join directory name) place) :
    Through directory place ∨ place = placeOf directory ++ [name] := by
  obtain ⟨front, parts, leading, leads⟩ := parts_below directory plain
  obtain ⟨before, way, rfl⟩ := through
  rw [parts, List.prefix_concat_iff] at way
  rcases way with rfl | way
  · right
    rw [lead_append, leads, lead_name _ plain]
  · exact .inl ⟨before, way.trans leading, rfl⟩

theorem lead_below {parts : List String} (straight : ".." ∉ parts) (here : List String) : here <+: lead here parts := by
  induction parts generalizing here with
  | nil => exact List.prefix_rfl
  | cons part rest ih =>
    have down : part ≠ ".." := fun up => straight (up ▸ List.mem_cons_self)
    have further := ih fun up => straight (List.mem_cons_of_mem _ up)
    simp only [lead, if_neg down]
    split
    · exact further here
    · exact (List.prefix_append here [part]).trans (further _)

/-- A path that never goes up leads down all the way. -/
theorem through_straight {path : String} {place : List String} (straight : ".." ∉ Path.parts path)
    (through : Through path place) : place <+: placeOf path := by
  obtain ⟨front, ⟨rest, parts⟩, rfl⟩ := through
  rw [placeOf, ← parts, lead_append]
  exact lead_below (fun up => straight (parts ▸ List.mem_append_right front up)) _

theorem walk_lead {disk : Disk} {here parts place : List String} (found : disk.walk here parts = .ok place) :
    place = lead here parts := by
  induction parts generalizing here with
  | nil => exact (Except.ok.inj found).symm
  | cons part rest ih =>
    unfold Disk.walk at found
    unfold lead
    split at found
    · cases found
    · cases found
    · split at found
      next skip => simpa only [if_pos skip] using ih found
      next keep =>
        simp only [if_neg keep]
        split at found
        next up => simpa only [if_pos up] using ih found
        next down =>
          simp only [if_neg down]
          split at found
          · cases found
          · exact ih found

theorem locate_placeOf {disk : Disk} {path : String} {place : List String} (found : disk.locate path = .ok place) :
    place = placeOf path := by
  unfold Disk.locate at found
  split at found
  · cases found
  · exact walk_lead found

/-- A disk takes a path: it is not too long, and neither is any name in it. -/
structure Fits (path : String) : Prop where
  usable : Disk.unusable path = none
  short : ∀ part ∈ Path.parts path, part.utf8ByteSize ≤ Disk.longestName

private theorem walk_clear {disk : Disk} {here parts : List String}
    (clear : ∀ front, front <+: parts → ∀ content, disk.at? (lead here front) ≠ some (.file content))
    (short : ∀ part ∈ parts, part.utf8ByteSize ≤ Disk.longestName) :
    disk.walk here parts = .ok (lead here parts) ∨ disk.walk here parts = .error .notFound := by
  induction parts generalizing here with
  | nil => exact .inl rfl
  | cons part rest ih =>
    obtain ⟨fits, later⟩ := List.forall_mem_cons.mp short
    have further {next : List String} (one : ∀ front, lead here (part :: front) = lead next front) :
        disk.walk next rest = .ok (lead next rest) ∨ disk.walk next rest = .error .notFound := by
      refine ih (fun front leading => ?_) later
      rw [← one front]
      exact clear (part :: front) (List.cons_prefix_cons.mpr ⟨rfl, leading⟩)
    have start := clear [] List.nil_prefix
    unfold Disk.walk lead
    split
    · exact .inr rfl
    next content there => exact absurd there (start content)
    · split
      next skip => exact further fun front => by simp only [lead, if_pos skip]
      next keep =>
        split
        next up => exact further fun front => by simp only [lead, if_neg keep, if_pos up]
        next down =>
          rw [if_neg (Nat.not_lt.mpr fits)]
          exact further fun front => by simp only [lead, if_neg keep, if_neg down]

/-- What is missing is not found, unless a file stands in the way. -/
theorem read_missing {disk : Disk} {path : String} (fits : Fits path)
    (clear : ∀ place, Through path place → ∀ content, disk.at? place ≠ some (.file content))
    (free : disk.at? (placeOf path) = none) : disk.read path = .error .notFound := by
  have walked := walk_clear 
    (fun front leading => clear _ ⟨front, leading, rfl⟩) fits.short
  rw [placeOf] at free
  unfold Disk.read Disk.find Disk.locate
  rw [fits.usable]
  rcases walked with found | missing
  · simp only [found, free]
  · simp only [missing]

private theorem walk_through {disk : Disk} {here front rest place : List String} {part : String}
    (found : disk.walk here (front ++ part :: rest) = .ok place) : disk.at? (lead here front) = some .directory := by
  rw [walk_append] at found
  cases walked : disk.walk here front with
  | error fault =>
    rw [walked] at found
    cases found
  | ok middle =>
    rw [walked] at found
    change disk.walk middle (part :: rest) = .ok place at found
    obtain rfl := walk_lead walked
    unfold Disk.walk at found
    split at found
    · cases found
    · cases found
    next there => exact there

/-- Where nothing is found the way ends early, or at a place where nothing is. -/
theorem walk_of_read_missing {disk : Disk} {path : String} (fits : Fits path)
    (missing : disk.read path = .error .notFound) : disk.walk [] (Path.parts path) = .error .notFound ∨
      disk.walk [] (Path.parts path) = .ok (placeOf path) ∧ disk.at? (placeOf path) = none := by
  unfold Disk.read Disk.find Disk.locate at missing
  simp only [fits.usable] at missing
  cases walked : disk.walk [] (Path.parts path) with
  | error fault =>
    simp only [walked] at missing
    cases missing
    exact .inl rfl
  | ok place =>
    obtain rfl := walk_lead walked
    refine .inr ⟨rfl, ?_⟩
    simp only [walked] at missing
    rcases there : disk.at? (lead [] (Path.parts path)) with _ | _ | content
    · exact there
    · simp only [there] at missing
      cases missing
    · simp only [there] at missing
      cases missing

private theorem find_ok {disk : Disk} {path : String} {entry : Entry} (found : disk.find path = .ok entry) :
    disk.walk [] (Path.parts path) = .ok (placeOf path) ∧ disk.at? (placeOf path) = some entry := by
  unfold Disk.find Disk.locate at found
  split at found
  · cases found
  next place located =>
    split at located
    · cases located
    · obtain rfl := walk_lead located
      split at found
      next there =>
        cases found
        exact ⟨located, there⟩
      · cases found

theorem find_walk {disk : Disk} {path : String} {entry : Entry} {front : List String} (found : disk.find path = .ok entry)
    (leading : front <+: Path.parts path) : disk.walk [] front = .ok (lead [] front) := by
  obtain ⟨whole, -⟩ := find_ok found
  obtain ⟨rest, cut⟩ := leading
  rw [← cut, walk_append] at whole
  cases walked : disk.walk [] front with
  | error fault =>
    rw [walked] at whole
    cases whole
  | ok place => rw [walk_lead walked]

theorem find_through {disk : Disk} {path : String} {place : List String} (found : disk.find path = .ok .directory)
    (through : Through path place) : disk.at? place = some .directory := by
  obtain ⟨walked, there⟩ := find_ok found
  obtain ⟨front, ⟨rest, parts⟩, rfl⟩ := through
  cases rest with
  | nil => rwa [placeOf, ← parts, List.append_nil] at there
  | cons part rest =>
    rw [← parts] at walked
    exact walk_through walked

/-- What is walked through are directories, and those that are made are on the way. -/
theorem makeWay_at? (disk : Disk) (here parts place : List String) :
    (disk.makeWay here parts).1.at? place = disk.at? place ∨
      disk.at? place = none ∧ (disk.makeWay here parts).1.at? place = some .directory ∧
        ∃ front, front <+: parts ∧ lead here front = place := by
  have further : ∀ {part : String} {rest here next : List String}, lead here [part] = next →
      (∃ front, front <+: rest ∧ lead next front = place) →
      ∃ front, front <+: part :: rest ∧ lead here front = place := by
    rintro part rest here next one ⟨front, before, ends⟩
    refine ⟨part :: front, List.cons_prefix_cons.mpr ⟨rfl, before⟩, ?_⟩
    rw [← List.singleton_append, lead_append, one, ends]
  induction parts generalizing disk here with
  | nil => exact .inl rfl
  | cons part rest ih =>
    unfold Disk.makeWay
    split
    next skip =>
      rcases ih disk here with same | ⟨free, made, way⟩
      · exact .inl same
      · exact .inr ⟨free, made, further (by simp [lead, skip]) way⟩
    next keep =>
      split
      next up =>
        rcases ih disk here.dropLast with same | ⟨free, made, way⟩
        · exact .inl same
        · exact .inr ⟨free, made, further (by simp [lead, up]) way⟩
      next down =>
        have one : lead here [part] = here ++ [part] := by simp only [lead, if_neg keep, if_neg down]
        split
        · exact .inl rfl
        · split
          · rcases ih disk (here ++ [part]) with same | ⟨free, made, way⟩
            · exact .inl same
            · exact .inr ⟨free, made, further one way⟩
          · exact .inl rfl
          next free =>
            by_cases first : place = here ++ [part]
            · subst first
              have extended := extends_makeWay (disk.put (here ++ [part]) .directory) (here ++ [part]) rest
              refine .inr ⟨free, extended _ _ (at?_put_directory disk _), [part], ?_, one⟩
              exact List.cons_prefix_cons.mpr ⟨rfl, List.nil_prefix⟩
            · have kept := at?_put_other disk .directory first
              rcases ih (disk.put (here ++ [part]) .directory) (here ++ [part]) with same | ⟨absent, made, way⟩
              · exact .inl (same.trans kept)
              · exact .inr ⟨kept.symm.trans absent, made, further one way⟩

theorem makeDirectories_at? (disk : Disk) (path : String) (place : List String) :
    (disk.makeDirectories path).1.at? place = disk.at? place ∨
      Through path place ∧ disk.at? place = none ∧ (disk.makeDirectories path).1.at? place = some .directory := by
  unfold Disk.makeDirectories
  split
  · exact .inl rfl
  · rcases makeWay_at? disk [] (Path.parts path) place with same | ⟨free, made, way⟩
    · exact .inl same
    · exact .inr ⟨way, free, made⟩

theorem lookup_filter (entries : List (List String × Entry)) (keep : List String → Bool) (place : List String) :
    (entries.filter fun (other, _) => keep other).lookup place =
      if keep place then entries.lookup place else none := by
  induction entries with
  | nil => simp
  | cons head rest ih =>
    obtain ⟨key, entry⟩ := head
    by_cases same : place = key
    · subst same
      cases kept : keep place with
      | true => simp [kept]
      | false => simpa [kept] using ih
    · have passed : (place == key) = false := beq_eq_false_iff_ne.mpr same
      cases kept : keep key with
      | true => simp [kept, List.lookup_cons, passed, ih]
      | false => simp [kept, List.lookup_cons, passed, ih]

theorem at?_erase_other (disk : Disk) {place other : List String} (apart : other ≠ place) :
    (disk.erase place).at? other = disk.at? other := by
  simp only [Disk.at?, Disk.erase, lookup_without disk.entries apart]

theorem at?_erase_same (disk : Disk) {place : List String} (inside : place ≠ []) : (disk.erase place).at? place = none := by
  have removed := lookup_filter disk.entries (fun other => decide (other ≠ place)) place
  simp only [Disk.at?, Disk.erase, if_neg inside]
  simpa using removed

theorem remove_ok {disk after : Disk} {path : String} (removed : disk.remove path = .ok after) :
    ∃ place content, disk.locate path = .ok place ∧ disk.at? place = some (.file content) ∧ after = disk.erase place := by
  unfold Disk.remove at removed
  split at removed
  · cases removed
  next place found =>
    split at removed
    · cases removed
    · cases removed
    next content there =>
      cases removed
      exact ⟨place, content, found, there, rfl⟩

theorem removeTree_outside (disk : Disk) {path : String} {place : List String} (outside : ¬ placeOf path <+: place) :
    (disk.removeTree path).at? place = disk.at? place := by
  unfold Disk.removeTree
  split
  · rfl
  next root found =>
    obtain rfl := locate_placeOf found
    have other : (placeOf path).isPrefixOf place = false :=
      Bool.eq_false_iff.mpr fun inside => outside (List.isPrefixOf_iff_prefix.mp inside)
    have kept : (!(placeOf path).isPrefixOf place) = true := by rw [other]; rfl
    simp only [Disk.at?, lookup_filter disk.entries (fun other => !(placeOf path).isPrefixOf other), kept, if_true]

theorem removeTree_inside {disk : Disk} {path : String} {root place : List String} (found : disk.locate path = .ok root)
    (inside : root <+: place) (some_name : place ≠ []) : (disk.removeTree path).at? place = none := by
  have dropped : (!root.isPrefixOf place) = false := by rw [List.isPrefixOf_iff_prefix.mpr inside]; rfl
  simp only [Disk.removeTree, found, Disk.at?, if_neg some_name,
    lookup_filter disk.entries (fun other => !root.isPrefixOf other), dropped]
  simp

end Montage.Proofs.DiskPlaces
