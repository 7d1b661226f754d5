import Montage.Proofs.RenderNames
import Montage.Proofs.TextTrimming

/-! The name of an output as a client asks for it. What is asked for is a path between blanks, and the name is the last
component of it. A path whose last component is no name, or that has none, gives no name to an output. -/

namespace Montage.Proofs.RequestedNames
open Montage.Render PathJoin RenderNames TextTrimming

/-- Where a component of a path leads: to the root, nowhere else, to the directory above, or to an entry. -/
inductive Component where
  | root
  | here
  | up
  | name (word : String)

def Component.name? : Component → Option String
  | name word => some word
  | _ => none

/-- A component ends where a slash or the end of the path is. -/
def Ended (rest : List Char) : Prop :=
  ∀ c ∈ rest.head?, c = '/'

inductive Spells : List Char → Component → Prop where
  | up : Spells ['.', '.'] .up
  | name {word : List Char} (some_char : word ≠ []) (whole : '/' ∉ word) (not_here : word ≠ ['.'])
      (not_up : word ≠ ['.', '.']) : Spells word (.name (String.ofList word))

/-- The components of a path behind its first one. Slashes and single dots add none. -/
inductive Follows : List Char → List Component → Prop where
  | ended : Follows [] []
  | slash {rest : List Char} {components : List Component} (later : Follows rest components) :
      Follows ('/' :: rest) components
  | here {rest : List Char} {components : List Component} (ended : Ended rest) (later : Follows rest components) :
      Follows ('.' :: rest) components
  | part {word rest : List Char} {component : Component} {components : List Component}
      (spells : Spells word component) (ended : Ended rest) (later : Follows rest components) :
      Follows (word ++ rest) (component :: components)

/-- The components of a path. A slash in front is the root, and a single dot in front is a component. -/
inductive Reads : List Char → List Component → Prop where
  | empty : Reads [] []
  | root {rest : List Char} {components : List Component} (later : Follows rest components) :
      Reads ('/' :: rest) (.root :: components)
  | here {rest : List Char} {components : List Component} (ended : Ended rest) (later : Follows rest components) :
      Reads ('.' :: rest) (.here :: components)
  | part {word rest : List Char} {component : Component} {components : List Component}
      (spells : Spells word component) (ended : Ended rest) (later : Follows rest components) :
      Reads (word ++ rest) (component :: components)

section Reading

theorem Spells.some_char {word : List Char} {component : Component} (spells : Spells word component) : word ≠ [] := by
  cases spells with
  | up => simp
  | name some_char => exact some_char

theorem Spells.whole {word : List Char} {component : Component} (spells : Spells word component) : '/' ∉ word := by
  cases spells with
  | up => decide
  | name some_char whole => exact whole

theorem Spells.not_here {word : List Char} {component : Component} (spells : Spells word component) :
    word ≠ ['.'] := by
  cases spells with
  | up => decide
  | name some_char whole not_here => exact not_here

theorem spelled {word : List Char} (some_char : word ≠ []) (whole : '/' ∉ word) :
    word = ['.'] ∨ ∃ component, Spells word component := by
  by_cases not_here : word = ['.']
  · exact .inl not_here
  by_cases up : word = ['.', '.']
  · exact .inr ⟨.up, up ▸ .up⟩
  · exact .inr ⟨_, .name some_char whole not_here up⟩

theorem begins (path : List Char) : path = [] ∨ (∃ rest, path = '/' :: rest) ∨
    (∃ rest, Ended rest ∧ path = '.' :: rest) ∨
      ∃ word component rest, Spells word component ∧ Ended rest ∧ path = word ++ rest := by
  have cut := List.takeWhile_append_dropWhile (p := (· ≠ '/')) (l := path)
  have whole : '/' ∉ path.takeWhile (· ≠ '/') := fun slash => by simpa using List.mem_takeWhile_imp slash
  have ended : Ended (path.dropWhile (· ≠ '/')) := by
    intro c first
    have stops := List.head?_dropWhile_not (fun c => decide (c ≠ '/')) path
    rw [Option.mem_def.mp first] at stops
    simpa using stops
  generalize path.takeWhile (· ≠ '/') = word at cut whole
  generalize path.dropWhile (· ≠ '/') = rest at cut ended
  subst cut
  by_cases some_char : word = []
  · subst some_char
    cases rest with
    | nil => exact .inl rfl
    | cons c rest =>
      obtain rfl := ended c rfl
      exact .inr (.inl ⟨rest, rfl⟩)
  · obtain rfl | ⟨component, spells⟩ := spelled some_char whole
    · exact .inr (.inr (.inl ⟨rest, ended, rfl⟩))
    · exact .inr (.inr (.inr ⟨word, component, rest, spells, ended, rfl⟩))

theorem follows_total (path : List Char) : ∃ components, Follows path components := by
  obtain same | ⟨rest, same⟩ | ⟨rest, ended, same⟩ | ⟨word, component, rest, spells, ended, same⟩ := begins path
  · exact ⟨[], same ▸ .ended⟩
  · have shorter : rest.length < path.length := by simp [same]
    obtain ⟨components, later⟩ := follows_total rest
    exact ⟨components, same ▸ .slash later⟩
  · have shorter : rest.length < path.length := by simp [same]
    obtain ⟨components, later⟩ := follows_total rest
    exact ⟨components, same ▸ .here ended later⟩
  · have shorter : rest.length < path.length := by simpa [same] using List.length_pos_iff.mpr spells.some_char
    obtain ⟨components, later⟩ := follows_total rest
    exact ⟨component :: components, same ▸ .part spells ended later⟩
termination_by path.length

private theorem reads_total (path : List Char) : ∃ components, Reads path components := by
  obtain rfl | ⟨rest, rfl⟩ | ⟨rest, ended, rfl⟩ | ⟨word, component, rest, spells, ended, rfl⟩ := begins path
  · exact ⟨[], .empty⟩
  all_goals obtain ⟨components, later⟩ := follows_total rest
  · exact ⟨.root :: components, .root later⟩
  · exact ⟨.here :: components, .here ended later⟩
  · exact ⟨component :: components, .part spells ended later⟩

def ofPart (part : String) : Component :=
  if part = ".." then .up else .name part

/-- What a piece between slashes adds to a path. -/
def component? (word : List Char) : Option Component :=
  if word = [] ∨ word = ['.'] then none else some (ofPart (String.ofList word))

private theorem component?_spelled {word : List Char} {component : Component} (spells : Spells word component) :
    component? word = some component := by
  rw [component?, if_neg (not_or.mpr ⟨spells.some_char, spells.not_here⟩)]
  cases spells with
  | up => rfl
  | name some_char whole not_here not_up =>
    have apart : String.ofList word ≠ ".." := fun same => not_up (String.toList_ofList.symm.trans (congrArg _ same))
    rw [ofPart, if_neg apart]

/-- A component is a piece, and the other pieces are those of the rest, but for an empty one in front of its slash. -/
theorem pieces_word {word rest : List Char} (whole : '/' ∉ word) (ended : Ended rest) : ∃ others,
    Text.pieces (· = '/') (word ++ rest) = word :: others ∧
      (Text.pieces (· = '/') rest).filterMap component? = others.filterMap component? := by
  have kept : ∀ c ∈ word, decide (c = '/') = false := fun c member => decide_eq_false fun same => whole (same ▸ member)
  cases rest with
  | nil => exact ⟨[], by rw [List.append_nil, Text.pieces_whole _ kept], rfl⟩
  | cons c rest =>
    obtain rfl := ended c rfl
    refine ⟨Text.pieces (· = '/') rest, ?_, ?_⟩
    · rw [Text.pieces_append _ _ _ (by decide), Text.pieces_whole _ kept, List.singleton_append]
    · rfl

theorem follows_eq {path : List Char} {components : List Component} (follows : Follows path components) :
    (Text.pieces (· = '/') path).filterMap component? = components := by
  induction follows with
  | ended => rfl
  | slash later ih => exact ih
  | here ended later ih =>
    have dot : '/' ∉ ['.'] := by decide
    obtain ⟨others, pieces, same⟩ := pieces_word dot ended
    rw [List.singleton_append] at pieces
    rw [pieces, ← ih, same]
    rfl
  | part spells ended later ih =>
    obtain ⟨others, pieces, same⟩ := pieces_word spells.whole ended
    rw [pieces, List.filterMap_cons_some (component?_spelled spells), ← same, ih]

/-- What the first piece stands for because it is the first. An empty one has a slash behind it, if any piece follows. -/
def lead : List (List Char) → List Component
  | [] :: _ :: _ => [.root]
  | ['.'] :: _ => [.here]
  | _ => []

private theorem lead_spelled {word : List Char} {component : Component} (spells : Spells word component)
    (others : List (List Char)) : lead (word :: others) = [] := by
  have some_char := spells.some_char
  have not_here := spells.not_here
  unfold lead
  split
  next same => exact absurd (List.cons.inj same).1 some_char
  next same => exact absurd (List.cons.inj same).1 not_here
  next => rfl

theorem reads_eq {path : List Char} {components : List Component} (reads : Reads path components) :
    lead (Text.pieces (· = '/') path) ++ (Text.pieces (· = '/') path).filterMap component? = components := by
  cases reads with
  | empty => rfl
  | @root rest components later =>
    obtain ⟨first, others, pieces⟩ := List.exists_cons_of_ne_nil (Text.pieces_ne_nil (· = '/') rest)
    have slash : Text.pieces (· = '/') ('/' :: rest) = [] :: first :: others := pieces ▸ rfl
    have same := follows_eq later
    rw [pieces] at same
    rw [slash, ← same]
    rfl
  | here ended later =>
    have dot : '/' ∉ ['.'] := by decide
    obtain ⟨others, pieces, same⟩ := pieces_word dot ended
    rw [List.singleton_append] at pieces
    rw [pieces, ← follows_eq later, same]
    rfl
  | part spells ended later =>
    obtain ⟨others, pieces, same⟩ := pieces_word spells.whole ended
    rw [pieces, lead_spelled spells, List.nil_append, List.filterMap_cons_some (component?_spelled spells), ← same,
      follows_eq later]

private theorem reads_unique {path : List Char} {components other : List Component} (reads : Reads path components) :
    Reads path other ↔ other = components :=
  ⟨fun again => (reads_eq again).symm.trans (reads_eq reads), fun same => same ▸ reads⟩

end Reading

section Naming

private theorem components_read (words : List (List Char)) : words.filterMap component? =
    ((words.map String.ofList).filter fun part => part ≠ "" ∧ part ≠ ".").map ofPart := by
  induction words with
  | nil => rfl
  | cons word rest ih =>
    have spelled (text : String) : String.ofList word = text ↔ word = text.toList := by
      rw [← String.toList_inj, String.toList_ofList]
    have empty : String.ofList word = "" ↔ word = [] := spelled ""
    have here : String.ofList word = "." ↔ word = ['.'] := spelled "."
    by_cases skipped : word = [] ∨ word = ['.']
    · have nothing : component? word = none := if_pos skipped
      rw [List.filterMap_cons_none nothing, List.map_cons, List.filter_cons_of_neg, ih]
      simpa [empty, here, or_iff_not_imp_left] using skipped
    · have something : component? word = some (ofPart (String.ofList word)) := if_neg skipped
      rw [List.filterMap_cons_some something, List.map_cons, List.filter_cons_of_pos, List.map_cons, ih]
      simpa [empty, here] using skipped

private theorem lead_unnamed (words : List (List Char)) : (lead words).getLast?.bind Component.name? = none := by
  unfold lead
  split
  all_goals rfl

private theorem reads_named {path : List Char} {components : List Component} (reads : Reads path components) :
    Path.fileName (String.ofList path) = components.getLast?.bind Component.name? := by
  have parts : Path.components (String.ofList path) =
      ((Text.pieces (· = '/') path).map String.ofList).filter fun part => part ≠ "" ∧ part ≠ "." := by
    rw [Path.components, Path.parts, String.toList_ofList]
  rw [← reads_eq reads, components_read, ← parts, List.getLast?_append, List.getLast?_map]
  cases last : (Path.components (String.ofList path)).getLast? with
  | none =>
    rw [Path.fileName, last]
    exact (lead_unnamed _).symm
  | some name =>
    by_cases up : name = ".."
    · rw [Path.fileName, last, up]
      rfl
    · rw [fileName_iff.mpr ⟨last, up⟩]
      simp [ofPart, up, Component.name?]

theorem last_behind {first last : Component} {components : List Component} (ends : components.getLast? = some last) :
    (first :: components).getLast? = some last := by
  rw [List.getLast?_cons, ends]
  rfl

private theorem follows_last {path : List Char} {components : List Component} (follows : Follows path components) :
    components = [] ∨ components.getLast? = some .up ∨ ∃ word, components.getLast? = some (.name word) := by
  induction follows with
  | ended => exact .inl rfl
  | slash later ih => exact ih
  | here ended later ih => exact ih
  | part spells ended later ih =>
    obtain rfl | up | ⟨word, last⟩ := ih
    · cases spells with
      | up => exact .inr (.inl rfl)
      | name => exact .inr (.inr ⟨_, rfl⟩)
    · exact .inr (.inl (last_behind up))
    · exact .inr (.inr ⟨word, last_behind last⟩)

private theorem led_last {path : List Char} {first : Component} {components : List Component}
    (led : first = .root ∨ first = .here) (later : Follows path components) :
    (∀ component ∈ first :: components, component = .root ∨ component = .here) ∨
      (first :: components).getLast? = some .up ∨ ∃ word, (first :: components).getLast? = some (.name word) := by
  obtain rfl | up | ⟨word, last⟩ := follows_last later
  · exact .inl (by simpa using led)
  · exact .inr (.inl (last_behind up))
  · exact .inr (.inr ⟨word, last_behind last⟩)

private theorem reads_last {path : List Char} {components : List Component} (reads : Reads path components) :
    (∀ component ∈ components, component = .root ∨ component = .here) ∨ components.getLast? = some .up ∨
      ∃ word, components.getLast? = some (.name word) := by
  cases reads with
  | empty => exact .inl (by simp)
  | root later => exact led_last (.inl rfl) later
  | here ended later => exact led_last (.inr rfl) later
  | part spells ended later =>
    obtain none | last := follows_last (.part spells ended later)
    · cases none
    · exact .inr last

theorem unnamed_iff {path : List Char} {components : List Component} (reads : Reads path components) :
    components.getLast?.bind Component.name? = none ↔
      components = [] ∨ (∀ component ∈ components, component = .root ∨ component = .here) ∨
        components.getLast? = some .up := by
  constructor
  · intro unnamed
    obtain only | up | ⟨word, last⟩ := reads_last reads
    · exact .inr (.inl only)
    · exact .inr (.inr up)
    · rw [last] at unnamed
      cases unnamed
  · intro unnamed
    obtain rfl | only | up := unnamed
    · rfl
    · cases last : components.getLast? with
      | none => rfl
      | some component =>
        obtain rfl | rfl := only component (List.mem_of_getLast? last)
        · rfl
        · rfl
    · rw [up]
      rfl

end Naming

/-- What is asked for is read in one way, as the components of a path between blanks. The output gets the name that the
last one of them is, which leads to an entry of a directory. It gets none exactly if there are no components, none but
the root and single dots, or the last one leads upwards. -/
theorem requestedName_exact (requested : String) : ∃ path components,
    (∀ other, Trimmed requested.toList other ↔ other = path) ∧
    (∀ other, Reads path other ↔ other = components) ∧
    requestedName (some requested) = components.getLast?.bind Component.name? ∧
    (∀ name ∈ requestedName (some requested), Plain name) ∧
    (requestedName (some requested) = none ↔
      components = [] ∨ (∀ component ∈ components, component = .root ∨ component = .here) ∨
        components.getLast? = some .up) := by
  obtain ⟨components, reads⟩ := reads_total (Text.trim requested.toList)
  have named : requestedName (some requested) = components.getLast?.bind Component.name? := by
    rw [requestedName, Option.bind_some, reads_named reads]
  refine ⟨_, components, fun other => trimmed_iff, fun other => reads_unique reads, named, ?_, ?_⟩
  · intro name asked
    exact requestedName_plain asked
  · rw [named]
    exact unnamed_iff reads

theorem climbing_path_exact : requestedName (some " ../films/./final.mp4// ") = some "final.mp4" ∧
    Plain "final.mp4" := by
  have named : requestedName (some " ../films/./final.mp4// ") = some "final.mp4" := by decide +kernel
  obtain ⟨_, _, _, _, _, plain, _⟩ := requestedName_exact " ../films/./final.mp4// "
  exact ⟨named, plain _ named⟩

end Montage.Proofs.RequestedNames
