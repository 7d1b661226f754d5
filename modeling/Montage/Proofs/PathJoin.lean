import Montage.Proofs.DiskFrame

/-! Paths of files directly below a directory. A plain name is one more part of the path, and on a disk
it leads one step further down. -/

namespace Montage.Proofs.PathJoin

/-- A name that leads to an entry of a directory itself. -/
structure Plain (name : String) : Prop where
  some_char : name ≠ ""
  not_here : name ≠ "."
  not_up : name ≠ ".."
  no_slash : '/' ∉ name.toList

theorem plain_iff {name : String} : Plain name ↔ name ≠ "" ∧ name ≠ "." ∧ name ≠ ".." ∧ '/' ∉ name.toList :=
  ⟨fun ⟨some_char, not_here, not_up, no_slash⟩ => ⟨some_char, not_here, not_up, no_slash⟩,
    fun ⟨some_char, not_here, not_up, no_slash⟩ => ⟨some_char, not_here, not_up, no_slash⟩⟩

instance (name : String) : Decidable (Plain name) :=
  decidable_of_iff _ plain_iff.symm

/-- A path that a name can be put behind with a slash. -/
structure Open (path : String) : Prop where
  some_char : path ≠ ""
  no_slash : path.endsWith "/" = false

theorem slash_toList : "/".toList = ['/'] := by
  decide

theorem relative {name : String} (plain : Plain name) : name.startsWith "/" = false := by
  rw [Bool.eq_false_iff]
  intro absolute
  rw [String.startsWith_string_iff, slash_toList] at absolute
  exact plain.no_slash (absolute.subset (by simp))

private theorem join_open {directory name : String} (directory_open : Open directory) (plain : Plain name) :
    Path.join directory name = directory ++ "/" ++ name := by
  have filled : directory.isEmpty = false := by simpa using directory_open.some_char
  simp [Path.join, relative plain, filled, directory_open.no_slash]

/-- Whatever the directory is, the path ends in the name. -/
private theorem join_ends (directory : String) {name : String} (plain : Plain name) :
    ∃ front, Path.join directory name = front ++ name := by
  simp only [Path.join, relative plain, Bool.false_eq_true, if_false]
  split
  · exact ⟨_, rfl⟩
  · exact ⟨_, rfl⟩

theorem open_join (directory : String) {name : String} (plain : Plain name) : Open (Path.join directory name) := by
  obtain ⟨front, ends⟩ := join_ends directory plain
  have some_char : name.toList ≠ [] := by simpa using plain.some_char
  rw [ends]
  constructor
  · simp [plain.some_char]
  · rw [Bool.eq_false_iff]
    intro slash
    rw [String.endsWith_eq_endsWith_toSlice, String.Slice.endsWith_string_iff] at slash
    obtain ⟨before, same⟩ := slash
    rw [slash_toList, String.copy_toSlice, String.toList_append, ← List.dropLast_concat_getLast some_char,
      ← List.append_assoc] at same
    have last : '/' = name.toList.getLast some_char := List.head_eq_of_cons_eq (List.append_inj' same rfl).2
    apply plain.no_slash
    rw [last]
    exact List.getLast_mem some_char

theorem relative_below {directory : String} (room : Plain directory) (path : String) :
    (directory ++ "/" ++ path).startsWith "/" = false := by
  have first := relative room
  rw [Bool.eq_false_iff, ne_eq, String.startsWith_string_iff, slash_toList] at first ⊢
  have filled : directory.toList ≠ [] := by simpa using room.some_char
  obtain ⟨c, rest, letters⟩ := List.exists_cons_of_ne_nil filled
  simpa [letters] using first

/-- A name in a directory below another one is two names below that one. -/
theorem join_below (root : String) {directory name : String} (room : Plain directory) (plain : Plain name) :
    Path.join root (directory ++ "/" ++ name) = Path.join (Path.join root directory) name := by
  rw [join_open (open_join _ room) plain]
  simp only [Path.join, relative_below room name, relative room, Bool.false_eq_true, if_false]
  split <;> simp only [String.append_assoc]

theorem parts_whole {name : String} (whole : '/' ∉ name.toList) : Path.parts name = [name] := by
  have kept : ∀ c ∈ name.toList, decide (c = '/') = false := fun c member =>
    decide_eq_false fun same => whole (same ▸ member)
  simp [Path.parts, Text.pieces_whole _ kept]

theorem parts_plain {name : String} (plain : Plain name) : Path.parts name = [name] :=
  parts_whole plain.no_slash

theorem parts_no_slash {path part : String} (member : part ∈ Path.parts path) : '/' ∉ part.toList := by
  obtain ⟨piece, inside, rfl⟩ := List.mem_map.mp member
  intro slash
  rw [String.toList_ofList] at slash
  exact absurd (Text.pieces_free _ _ piece inside '/' slash) (by decide)

theorem parts_slash (directory name : String) :
    Path.parts (directory ++ "/" ++ name) = Path.parts directory ++ Path.parts name := by
  have cut := Text.pieces_append (· = '/') directory.toList name.toList (c := '/') (by simp)
  simp [Path.parts, slash_toList, cut]

theorem parts_join {directory name : String} (directory_open : Open directory) (plain : Plain name) :
    Path.parts (Path.join directory name) = Path.parts directory ++ [name] := by
  rw [join_open directory_open plain, parts_slash, parts_plain plain]

theorem join_injective {directory first second : String} (directory_open : Open directory) (one : Plain first)
    (two : Plain second) (same : Path.join directory first = Path.join directory second) : first = second := by
  have parts := congrArg Path.parts same
  simpa [parts_join directory_open one, parts_join directory_open two] using parts

/-- A name below a directory is located one step further down, if it is located at all. -/
theorem locate_join {disk : Disk} {directory name : String} {place located : List String}
    (directory_open : Open directory) (plain : Plain name) (found : disk.locate directory = .ok place)
    (below : disk.locate (Path.join directory name) = .ok located) : located = place ++ [name] := by
  unfold Disk.locate at found below
  split at found
  · cases found
  · split at below
    · cases below
    · rw [parts_join directory_open plain, DiskFrame.walk_append, found] at below
      change disk.walk place [name] = .ok located at below
      simp only [Disk.walk, plain.some_char, plain.not_here, plain.not_up, or_self, if_false] at below
      split at below
      · cases below
      · cases below
      · split at below
        · cases below
        · cases below
          rfl

end Montage.Proofs.PathJoin
