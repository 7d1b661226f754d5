import Montage.Proofs.QuotedTokens
import Montage.Text.Blank

/-! The path of a subtitle track as the engine comes to read it. The path is unquoted twice, first as a part of the
graph and then as an option of its filter, and what comes out is the path with slashes for its backslashes. -/

namespace Montage.Proofs.SubtitlePaths
open Montage.Filter FilterGrammar QuotedTokens

def slashed (path : String) : List Char :=
  path.toList.map fun c => if c = '\\' then '/' else c

/-- What is left of a character of a path once the graph is taken apart. -/
def optionChar : Char → List Char
  | '\\' => ['/']
  | ':' => ['\\', ':']
  | '\'' => ['\\', '\'']
  | c => [c]

def option (path : String) : List Char :=
  path.toList.flatMap optionChar

private theorem escapedPath_stretch (path : String) :
    stretch .quoted (escapedPath path).toList = ⟨option path, [], .quoted⟩ := by
  have each : ∀ c ∈ path.toList, stretch .quoted (escapedPathChar c) = ⟨optionChar c, [], .quoted⟩ := by
    intro c _
    unfold escapedPathChar optionChar
    split
    · rfl
    · rfl
    · rfl
    next slash colon quote =>
      have passes : c ≠ '\'' := quote
      simp [stretch, said, Mode.next, passes]
  rw [escapedPath, String.toList_ofList, stretch_flatMap each]
  simp [option]

/-- The characters of a path that are not escaped in an option. -/
def leaves : Char → List Char
  | '\\' => ['/']
  | ':' => []
  | '\'' => []
  | c => [c]

theorem option_stretch (path : String) :
    stretch .bare (option path) = ⟨slashed path, path.toList.flatMap leaves, .bare⟩ := by
  have each : ∀ c ∈ path.toList, stretch .bare (optionChar c) = ⟨[if c = '\\' then '/' else c], leaves c, .bare⟩ := by
    intro c _
    unfold optionChar leaves
    split
    · rfl
    · rfl
    · rfl
    next slash colon quote =>
      have backslash : c ≠ '\\' := slash
      have passes : c ≠ '\'' := quote
      simp [stretch, said, Mode.next, passes, backslash]
  rw [option, stretch_flatMap each, slashed, List.map_eq_flatMap]

theorem leaves_inner {path : List Char} : ∀ c ∈ path.flatMap leaves, decide (c = ':') = false := by
  intro c member
  obtain ⟨d, -, left⟩ := List.mem_flatMap.mp member
  unfold leaves at left
  split at left <;> simp_all

/-- Paths that are escaped alike are alike up to their slashes. -/
private theorem slashed_of_escaped {path other : String} (same : escapedPath path = escapedPath other) :
    slashed path = slashed other := by
  have read (path : String) :
      (stretch .bare (stretch .quoted (escapedPath path).toList).said).said = slashed path := by
    rw [escapedPath_stretch, option_stretch]
  rw [← read path, same, read other]

def quotedPath (path : String) : List Char :=
  '\'' :: (escapedPath path).toList ++ ['\'']

private theorem quotedPath_stretch (path : String) : stretch .bare (quotedPath path) = ⟨option path, [], .bare⟩ := by
  simp [quotedPath, stretch, stretch_append, escapedPath_stretch, said, Mode.next]

def named : List Char :=
  ['a', 's', 's', '=']

theorem filter_text (path : String) : (Filter.subtitles path).text.toList = named ++ quotedPath path := by
  have opened : "ass='".toList = named ++ ['\''] := by decide
  have closed : "'".toList = ['\''] := by decide
  unfold Filter.text
  simp only [String.toList_append, opened, closed, quotedPath, List.append_assoc, List.cons_append, List.nil_append]

theorem filter_stretch (path : String) :
    stretch .bare (Filter.subtitles path).text.toList = ⟨named ++ option path, named, .bare⟩ := by
  have bare : stretch .bare named = ⟨named, named, .bare⟩ := by simp [named, stretch, said, Mode.next]
  simp only [filter_text, stretch_append, bare, quotedPath_stretch, List.append_nil]

section Trimmed
variable {trims : Char → Bool} (white : ∀ c, trims c = true → Text.isBlank c = true)
include white

theorem untrimmed {c : Char} (inked : Text.isBlank c = false) : trims c = false := by
  cases trimmed : trims c with
  | false => rfl
  | true =>
    rw [white c trimmed] at inked
    cases inked

variable {path : String}

private theorem option_first (begins : ∀ c ∈ path.toList.head?, trims c = false) :
    ∀ c ∈ (option path).head?, trims c = false := by
  unfold option
  cases chars : path.toList with
  | nil => nofun
  | cons c rest =>
    rw [chars] at begins
    intro d first
    rw [List.flatMap_cons] at first
    unfold optionChar at first
    split at first
    · exact Option.some.inj first ▸ untrimmed white rfl
    · exact Option.some.inj first ▸ untrimmed white rfl
    · exact Option.some.inj first ▸ untrimmed white rfl
    · exact Option.some.inj first ▸ begins _ rfl

private theorem option_last (ends : ∀ c ∈ path.toList.getLast?, trims c = false) :
    ∀ c ∈ (option path).getLast?, trims c = false := by
  unfold option
  obtain none | ⟨front, c, chars⟩ := List.eq_nil_or_concat path.toList
  · rw [none]
    nofun
  · rw [List.concat_eq_append] at chars
    rw [chars, List.getLast?_concat] at ends
    rw [chars, List.flatMap_append, List.flatMap_singleton]
    intro d last
    unfold optionChar at last
    split at last
    all_goals simp only [List.getLast?_append] at last
    · exact Option.some.inj last ▸ untrimmed white rfl
    · exact Option.some.inj last ▸ ends _ rfl
    · exact Option.some.inj last ▸ ends _ rfl
    · exact Option.some.inj last ▸ ends _ rfl

end Trimmed

/-- A path that neither begins nor ends with a blank comes back from both readings, whatever signs it has, and whether
the reader trims white space of some kind off its tokens or none. The graph is read up to the end of the filter, and
the option to its own end. Paths that are escaped alike are therefore the same up to their slashes. -/
theorem path_read_back {trims : Char → Bool} (white : ∀ c, trims c = true → Text.isBlank c = true) {path : String}
    (begins : ∀ c ∈ path.toList.head?, trims c = false) (ends : ∀ c ∈ path.toList.getLast?, trims c = false) :
    (∃ option, readToken trims separates (quotedPath path) = some (option, []) ∧
      readToken trims separates (Filter.subtitles path).text.toList = some (named ++ option, []) ∧
      readToken trims (· = ':') option = some (slashed path, [])) ∧
    ∀ other, escapedPath other = escapedPath path → slashed other = slashed path := by
  have slash : trims '\\' = false := untrimmed white rfl
  have quote : trims '\'' = false := untrimmed white rfl
  have closing (text : List Char) : ∀ c ∈ (text ++ ['\'']).getLast?, trims c = false := by
    rw [List.getLast?_concat]
    exact fun d last => Option.some.inj last ▸ quote
  refine ⟨⟨option path, ?_, ?_, ?_⟩, fun other same => slashed_of_escaped same⟩
  · have opening : ∀ c ∈ (quotedPath path).head?, trims c = false := fun c first => Option.some.inj first ▸ quote
    exact readToken_stretch slash quote (by decide) (quotedPath_stretch path) nofun opening (closing _)
  · have opening : ∀ c ∈ (Filter.subtitles path).text.toList.head?, trims c = false := by
      rw [filter_text]
      exact fun c first => Option.some.inj first ▸ untrimmed white rfl
    have inner : ∀ c ∈ named, separates c = false := by simp [named, separates]
    refine readToken_stretch slash quote (by decide) (filter_stretch path) inner opening ?_
    rw [filter_text, quotedPath, ← List.append_assoc]
    exact closing _
  · exact readToken_stretch slash quote (by decide) (option_stretch path) leaves_inner (option_first white begins)
      (option_last white ends)

/-- The white space that the engine trims off. -/
def isTrimmed (c : Char) : Bool :=
  c = ' ' || c = '\n' || c = '\t' || c = '\r'

/-- A path with every sign that means something in one of the readings. -/
def drivePath : String :=
  "C:\\it's [1], it's; 'x'"

theorem drive_path_read_back : ∃ option, readToken isTrimmed separates (quotedPath drivePath) = some (option, []) ∧
    readToken isTrimmed (· = ':') option = some (slashed drivePath, []) := by
  have white : ∀ c, isTrimmed c = true → Text.isBlank c = true := by
    intro c trimmed
    simp only [isTrimmed, Bool.or_eq_true, decide_eq_true_eq] at trimmed
    obtain ((rfl | rfl) | rfl) | rfl := trimmed <;> decide
  have begins : ∀ c ∈ drivePath.toList.head?, isTrimmed c = false := by simp [drivePath, isTrimmed]
  have ends : ∀ c ∈ drivePath.toList.getLast?, isTrimmed c = false := by simp [drivePath, isTrimmed]
  obtain ⟨⟨option, graph, -, read⟩, -⟩ := path_read_back white begins ends
  exact ⟨option, graph, read⟩

end Montage.Proofs.SubtitlePaths
