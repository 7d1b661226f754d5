import Montage.Proofs.DiskPlaces
import Montage.Proofs.RenderLeavings

/-! The names of what a render leaves. Each is a plain one, whatever was asked for, and no name that a
render picks for an output is ever tried for a log. -/

namespace Montage.Proofs.RenderNames
open Montage.Render PathJoin DiskPlaces RenderOutput RenderLeavings

private theorem pieces_ends (separates : Char → Bool) (front : List Char) {tail : List Char}
    (whole : ∀ c ∈ tail, separates c = false) :
    ∃ before piece, Text.pieces separates (front ++ tail) = before ++ [piece ++ tail] ∧
      ∀ c ∈ piece, separates c = false := by
  induction front with
  | nil => exact ⟨[], [], Text.pieces_whole separates whole, by simp⟩
  | cons c rest ih =>
    obtain ⟨before, piece, pieces, free⟩ := ih
    simp only [List.cons_append, Text.pieces, pieces]
    split
    · exact ⟨[] :: before, piece, rfl, free⟩
    next keep =>
      cases before with
      | nil =>
        refine ⟨[], c :: piece, rfl, ?_⟩
        intro d member
        rcases List.mem_cons.mp member with rfl | later
        · exact Bool.eq_false_iff.mpr keep
        · exact free d later
      | cons first others => exact ⟨(c :: first) :: others, piece, rfl, free⟩

theorem fileName_iff {path name : String} :
    Path.fileName path = some name ↔ (Path.components path).getLast? = some name ∧ name ≠ ".." := by
  unfold Path.fileName
  split
  next up =>
    rw [up]
    constructor
    · intro impossible
      cases impossible
    · rintro ⟨same, apart⟩
      exact absurd (Option.some.inj same).symm apart
  next none => simp [none]
  next last not_up same =>
    rw [same]
    constructor
    · rintro ⟨rfl⟩
      exact ⟨rfl, not_up⟩
    · exact And.left

private theorem fileName_plain {path name : String} (named : Path.fileName path = some name) : Plain name := by
  obtain ⟨last, not_up⟩ := fileName_iff.mp named
  obtain ⟨part, kept⟩ := List.mem_filter.mp (List.mem_of_getLast? last)
  have kept : name ≠ "" ∧ name ≠ "." := by simpa using kept
  exact ⟨kept.1, kept.2, not_up, parts_no_slash part⟩

theorem requestedName_plain {requested : Option String} {name : String} (named : requestedName requested = some name) :
    Plain name := by
  obtain ⟨path, -, last⟩ := Option.bind_eq_some_iff.mp named
  exact fileName_plain last

private theorem fileName_behind {path name : String} {front : List String} (parts : Path.parts path = front ++ [name])
    (plain : Plain name) : Path.fileName path = some name := by
  have kept : [name].filter (fun part => part ≠ "" ∧ part ≠ ".") = [name] := by
    simp [plain.some_char, plain.not_here]
  refine fileName_iff.mpr ⟨?_, plain.not_up⟩
  rw [Path.components, parts, List.filter_append, kept, List.getLast?_concat]

theorem fileName_self {name : String} (plain : Plain name) : Path.fileName name = some name := by
  have parts : Path.parts name = [] ++ [name] := parts_plain plain
  exact fileName_behind parts plain

/-- A path leads into a directory under its last component, wherever the rest of it leads. -/
theorem placeOf_last {path name : String} (named : Path.fileName path = some name) :
    (placeOf path).getLast? = some name := by
  obtain ⟨front, components⟩ := List.getLast?_eq_some_iff.mp (fileName_iff.mp named).1
  rw [placeOf_components, components, lead_append, lead_name _ (fileName_plain named), List.getLast?_concat]

theorem fileName_join (directory : String) {path last : String} (named : Path.fileName path = some last) :
    Path.fileName (Path.join directory path) = some last := by
  cases absolute : path.startsWith "/" with
  | true => simpa [Path.join, absolute] using named
  | false =>
    obtain ⟨front, behind, -⟩ := parts_behind directory absolute
    obtain ⟨same, not_up⟩ := fileName_iff.mp named
    refine fileName_iff.mpr ⟨?_, not_up⟩
    rw [Path.components, behind, List.filter_append, ← Path.components, List.getLast?_append, same]
    rfl

theorem digits_no_slash (number : Nat) : '/' ∉ (toString number).toList := by
  intro slash
  have digit : '/' ∈ Nat.toDigits 10 number := by simpa using slash
  exact absurd (Nat.isDigit_of_mem_toDigits (by decide) (by decide) digit) (by decide)

/-- An extension that file names keep when they are numbered. -/
structure Suffix (extension : List Char) : Prop where
  some_char : extension ≠ []
  no_dot : '.' ∉ extension
  no_slash : '/' ∉ extension

/-- A name that has something before its extension. -/
def Dotted (extension : List Char) (name : String) : Prop :=
  ∃ front, front ≠ [] ∧ '/' ∉ front ∧ name.toList = front ++ '.' :: extension

variable {extension : List Char} (suffix : Suffix extension)
include suffix

theorem Dotted.plain {name : String} (dotted : Dotted extension name) : Plain name := by
  obtain ⟨front, some_char, no_slash, same⟩ := dotted
  have long : 2 < name.toList.length := by
    have first := List.length_pos_iff.mpr some_char
    have last := List.length_pos_iff.mpr suffix.some_char
    simp only [same, List.length_append, List.length_cons]
    omega
  have apart : ∀ other : String, other.toList.length ≤ 2 → name ≠ other := by
    rintro other short rfl
    omega
  refine ⟨apart "" (by decide), apart "." (by decide), apart ".." (by decide), ?_⟩
  simp [same, no_slash, suffix.no_slash]

private theorem cutExtension_dotted {front : List Char} (some_char : front ≠ []) :
    Path.cutExtension (front ++ '.' :: extension) = (front, some extension) := by
  have kept : ∀ c ∈ extension.reverse, decide (c ≠ '.') = true := fun c member =>
    decide_eq_true fun dot => suffix.no_dot (dot ▸ List.mem_reverse.mp member)
  have taken : ((front ++ '.' :: extension).reverse.takeWhile (· ≠ '.')).reverse = extension := by
    rw [List.reverse_append, List.reverse_cons, List.append_assoc, List.takeWhile_append_of_pos kept]
    simp
  have first := List.length_pos_iff.mpr some_char
  have last := List.length_pos_iff.mpr suffix.some_char
  have long : ¬(front ++ '.' :: extension = ['.', '.'] ∨
      (front ++ '.' :: extension).length - extension.length ≤ 1) := by
    rintro (up | short)
    · have length := congrArg List.length up
      simp only [List.length_append, List.length_cons, List.length_nil] at length
      omega
    · simp only [List.length_append, List.length_cons] at short
      omega
  have rest : (front ++ '.' :: extension).length - extension.length - 1 = front.length := by
    simp only [List.length_append, List.length_cons]
    omega
  simp only [Path.cutExtension, taken, if_neg long, rest, List.take_left']

private theorem numbered_text {path name : String} {front : List Char} (some_char : front ≠ [])
    (same : name.toList = front ++ '.' :: extension) (named : Path.fileName path = some name) (number : Nat) :
    (Audit.numbered path number).toList = front ++ '_' :: (toString number).toList ++ '.' :: extension := by
  have cut := cutExtension_dotted suffix some_char
  have stem : Path.stem path = some (String.ofList front) := by
    simp [Path.stem, named, same, cut]
  have kept : Path.extension path = some (String.ofList extension) := by
    simp [Path.extension, named, same, cut]
  simp [Audit.numbered, stem, kept]

theorem Dotted.numbered {path name : String} (dotted : Dotted extension name)
    (named : Path.fileName path = some name) (number : Nat) : Dotted extension (Audit.numbered path number) := by
  obtain ⟨front, some_char, no_slash, same⟩ := dotted
  refine ⟨front ++ '_' :: (toString number).toList, by simp, ?_, numbered_text suffix some_char same named number⟩
  exact List.not_mem_append no_slash (List.not_mem_cons_of_ne_of_not_mem (by decide) (digits_no_slash number))

theorem Dotted.candidate {name candidate : String} (dotted : Dotted extension name)
    (member : candidate ∈ Audit.candidates name) : Dotted extension candidate := by
  rcases List.mem_cons.mp member with rfl | later
  · exact dotted
  · obtain ⟨index, -, rfl⟩ := List.mem_map.mp later
    exact dotted.numbered suffix (fileName_self (dotted.plain suffix)) (index + 1)

theorem Dotted.candidate_last {path name candidate : String} (dotted : Dotted extension name)
    (named : Path.fileName path = some name) (member : candidate ∈ Audit.candidates path) :
    ∃ last, Path.fileName candidate = some last ∧ Dotted extension last ∧
      name.toList.count '_' ≤ last.toList.count '_' := by
  rcases List.mem_cons.mp member with rfl | later
  · exact ⟨name, named, dotted, le_rfl⟩
  · obtain ⟨index, -, rfl⟩ := List.mem_map.mp later
    have numbered := dotted.numbered suffix named (index + 1)
    refine ⟨_, fileName_self (numbered.plain suffix), numbered, ?_⟩
    obtain ⟨front, some_char, -, same⟩ := dotted
    rw [numbered_text suffix some_char same named, same]
    simp only [List.count_append, List.count_cons]
    omega

omit suffix

theorem suffix_output : Suffix "mp4".toList :=
  ⟨by decide, by decide, by decide⟩

theorem suffix_log : Suffix "txt".toList :=
  ⟨by decide, by decide, by decide⟩

theorem padded_no_slash (width number : Nat) : '/' ∉ Number.padded width number := by
  intro slash
  rcases List.mem_append.mp slash with zeros | digits
  · exact absurd (List.eq_of_mem_replicate zeros) (by decide)
  · exact absurd (Nat.isDigit_of_mem_toDigits (by decide) (by decide) digits) (by decide)

theorem stamp_no_slash (instant : Instant) : '/' ∉ instant.stamp.toList := by
  have year : '/' ∉ Instant.yearText instant.day.year := by
    unfold Instant.yearText
    split
    · exact padded_no_slash 4 _
    · intro slash
      rcases List.mem_cons.mp slash with sign | digits
      · split at sign <;> exact absurd sign (by decide)
      · exact padded_no_slash 4 _ digits
  simp [Instant.stamp, year, padded_no_slash]

theorem fileName_dotted (instant : Instant) : Dotted "txt".toList (Audit.fileName instant) := by
  refine ⟨"render_log_".toList ++ instant.stamp.toList ++ '_' :: instant.millisecondText.toList, ?_, ?_, ?_⟩
  · exact List.append_ne_nil_of_right_ne_nil _ (List.cons_ne_nil _ _)
  · simp [stamp_no_slash, Instant.millisecondText, padded_no_slash]
  · simp [Audit.fileName]

theorem defaultName_dotted {project : String} (no_slash : '/' ∉ project.toList) (instant : Instant) :
    Dotted "mp4".toList (defaultName project instant) := by
  refine ⟨"rendered_".toList ++ project.toList ++ '_' :: instant.stamp.toList, ?_, ?_, ?_⟩
  · exact List.append_ne_nil_of_right_ne_nil _ (List.cons_ne_nil _ _)
  · simp [no_slash, stamp_no_slash]
  · simp [defaultName]

private theorem defaultName_last (project : String) (instant : Instant) :
    ∃ last, Path.fileName (defaultName project instant) = some last ∧ Dotted "mp4".toList last ∧
      2 ≤ last.toList.count '_' := by
  let tail := '_' :: instant.stamp.toList ++ '.' :: "mp4".toList
  have no_slash : '/' ∉ tail := by simp [tail, stamp_no_slash]
  have whole : ∀ c ∈ tail, decide (c = '/') = false := fun c member =>
    decide_eq_false fun slash => no_slash (slash ▸ member)
  obtain ⟨before, piece, pieces, free⟩ := pieces_ends (· = '/') ("rendered_".toList ++ project.toList) whole
  have parts : Path.parts (defaultName project instant) = before.map String.ofList ++ [String.ofList (piece ++ tail)] := by
    have ends : (defaultName project instant).toList = "rendered_".toList ++ project.toList ++ tail := by
      simp [defaultName, tail]
    rw [Path.parts, ends, pieces, List.map_append]
    rfl
  have dotted : Dotted "mp4".toList (String.ofList (piece ++ tail)) := by
    refine ⟨piece ++ '_' :: instant.stamp.toList, ?_, ?_, ?_⟩
    · exact List.append_ne_nil_of_right_ne_nil _ (List.cons_ne_nil _ _)
    · have piece_free : '/' ∉ piece := fun slash => absurd (free '/' slash) (by decide)
      simp [piece_free, stamp_no_slash]
    · simp [tail]
  have bars : 2 ≤ tail.count '_' := by
    have stamp : 1 ≤ instant.stamp.toList.count '_' := List.one_le_count_iff.mpr (by simp [Instant.stamp])
    simp only [tail, List.cons_append, List.count_cons_self, List.count_append]
    omega
  refine ⟨_, fileName_behind parts (dotted.plain suffix_output), dotted, ?_⟩
  rw [String.toList_ofList, List.count_append]
  omega

/-- What is tried for a log is never tried for an output. -/
theorem dotted_apart {output log : String} (video : Dotted "mp4".toList output) (text : Dotted "txt".toList log) :
    output ≠ log := by
  rintro rfl
  obtain ⟨front, -, -, one⟩ := video
  obtain ⟨other, -, -, two⟩ := text
  have last := congrArg List.getLast? (one.symm.trans two)
  rw [List.getLast?_append_cons, List.getLast?_append_cons] at last
  exact absurd last (by decide)

variable {settings : Settings} {inputs : Inputs}

/-- An output lies in the directory of its project, under a name that is plain. -/
theorem chosen_named {output : String} (no_slash : '/' ∉ inputs.project.toList) (chosen : Chosen settings inputs output) :
    ∃ name, Plain name ∧ output = Path.join (settings.outputDirectory inputs.project) name := by
  unfold Chosen IsOutput at chosen
  split at chosen
  next name named => exact ⟨name, requestedName_plain named, chosen⟩
  next =>
    obtain ⟨instant, name, member, path⟩ := chosen
    exact ⟨name, ((defaultName_dotted no_slash instant).candidate suffix_output member).plain suffix_output, path⟩

theorem chosen_last {output : String} (chosen : Chosen settings inputs output) :
    ∃ last, Path.fileName output = some last ∧
      (requestedName inputs.request.outputName = some last ∨ Dotted "mp4".toList last) := by
  unfold Chosen IsOutput at chosen
  split at chosen
  next name named =>
    rw [chosen]
    exact ⟨name, fileName_join _ (fileName_self (requestedName_plain named)), .inl named⟩
  next =>
    obtain ⟨instant, name, tried, rfl⟩ := chosen
    obtain ⟨base, named, dotted, -⟩ := defaultName_last inputs.project instant
    obtain ⟨last, ends, video, -⟩ := dotted.candidate_last suffix_output named tried
    exact ⟨last, fileName_join _ ends, .inr video⟩

/-- No output whose name a render picks itself has the name of a staged file. -/
theorem chosen_unstaged {output workspace name : String} (unnamed : requestedName inputs.request.outputName = none)
    (chosen : Chosen settings inputs output) (stages : StagedNames.Stages name) :
    placeOf output ≠ placeOf (Path.join workspace name) := by
  rw [Chosen, IsOutput, unnamed] at chosen
  obtain ⟨instant, candidate, tried, rfl⟩ := chosen
  obtain ⟨base, named, dotted, bars⟩ := defaultName_last inputs.project instant
  obtain ⟨last, ends, -, more⟩ := dotted.candidate_last suffix_output named tried
  intro same
  have lasts := placeOf_last (fileName_join (settings.outputDirectory inputs.project) ends)
  rw [same, placeOf_last (fileName_join _ (fileName_self stages.plain))] at lasts
  cases lasts
  have few := stages.bars
  omega

theorem log_named {directory log : String} (logged : IsLog directory log) :
    ∃ name, Dotted "txt".toList name ∧ log = Path.join directory name := by
  obtain ⟨instant, name, member, path⟩ := logged
  exact ⟨name, (fileName_dotted instant).candidate suffix_log member, path⟩

end Montage.Proofs.RenderNames
