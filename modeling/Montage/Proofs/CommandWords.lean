import Montage.Command
import Montage.Proofs.QuotedTokens

/-! The line of a command as a shell takes it apart. Its words are the program and its arguments, whatever characters
they have, and no character that means something to the shell is left without quotes. -/

namespace Montage.Proofs.CommandWords
open FilterGrammar (Mode)
open QuotedTokens

def separates (c : Char) : Bool :=
  c = ' ' || c = '\t' || c = '\n'

def words (line : List Char) : Option (List String) :=
  match _start : line.dropWhile separates with
  | [] => some []
  | c :: rest =>
    match _read : readFrom noBlank separates .bare (c :: rest) with
    | none => none
    | some (word, left) => (words left).map (String.ofList word :: ·)
termination_by line.length
decreasing_by
  have begins := List.head?_dropWhile_not separates line
  have shorter := (List.dropWhile_sublist separates (l := line)).length_le
  simp only [_start, List.head?_cons] at begins
  rw [_start, List.length_cons] at shorter
  exact Nat.lt_of_le_of_lt (readFrom_shorter ((isOver_cons c rest).trans begins) _read) shorter

/-- The characters that a shell expands or takes for operators. -/
def active : List Char :=
  "|&;<>()$`\"*?[]#~!^\x7b\x7d\n".toList

def isActive (c : Char) : Bool :=
  active.contains c

private theorem words_end {line : List Char} (blank : line.dropWhile separates = []) : words line = some [] := by
  rw [words]
  split <;> simp_all

private theorem words_next {line rest word left : List Char} {c : Char} (starts : line.dropWhile separates = c :: rest)
    (read : readFrom noBlank separates .bare (c :: rest) = some (word, left)) :
    words line = (words left).map (String.ofList word :: ·) := by
  rw [words]
  split
  next none => cases starts.symm.trans none
  next found =>
    cases starts.symm.trans found
    split <;> simp_all

theorem plain_absent {signs : List Char} (none : signs.any Shell.isPlain = false) {c : Char}
    (plain : Shell.isPlain c = true) : c ∉ signs := by
  intro member
  rw [List.any_eq_true.mpr ⟨c, member, plain⟩] at none
  cases none

private theorem plain_inactive {c : Char} (plain : Shell.isPlain c = true) : isActive c = false := by
  have none : active.any Shell.isPlain = false := by decide
  simpa [isActive] using plain_absent none plain

private theorem plain_inner {c : Char} (plain : Shell.isPlain c = true) : separates c = false := by
  have none : [' ', '\t', '\n'].any Shell.isPlain = false := by decide
  simpa [separates, and_assoc] using plain_absent none plain

private theorem plain_unsigned {c : Char} (plain : Shell.isPlain c = true) : ¬(c = '\\' ∨ c = '\'') := by
  have none : ['\\', '\''].any Shell.isPlain = false := by decide
  simpa using plain_absent none plain

/-- A word says its text, and leaves no character bare but plain ones. -/
theorem word_stretch (text : String) : ∃ bare, (∀ c ∈ bare, Shell.isPlain c = true) ∧
    stretch .bare (Shell.word text).toList = ⟨text.toList, bare, .bare⟩ := by
  unfold Shell.word
  split
  next plain =>
    have all : ∀ c ∈ text.toList, Shell.isPlain c = true := by simp_all
    have each : ∀ c ∈ text.toList, stretch .bare [c] = ⟨[c], [c], .bare⟩ := by
      intro c member
      obtain ⟨slash, quote⟩ := not_or.mp (plain_unsigned (all c member))
      simp [stretch, said, Mode.next, slash, quote]
    refine ⟨text.toList, all, ?_⟩
    simpa using stretch_flatMap each
  next =>
    have each : ∀ c ∈ text.toList,
        stretch .quoted (if c = '\'' then "'\\''".toList else [c]) = ⟨[c], [], .quoted⟩ := by
      intro c _
      split
      next quote => rw [quote]; rfl
      next other => simp [stretch, said, Mode.next, other]
    refine ⟨[], by simp, ?_⟩
    have opened : Mode.bare.next '\'' = .quoted := rfl
    simp only [String.toList_ofList, stretch, opened, stretch_append, stretch_flatMap each]
    simp [said, Mode.next]

theorem word_begins (text : String) : ∃ c rest, (Shell.word text).toList = c :: rest ∧ separates c = false := by
  unfold Shell.word
  split
  next plain =>
    simp only [Bool.and_eq_true, List.all_eq_true] at plain
    cases chars : text.toList with
    | nil => simp_all
    | cons c rest => exact ⟨c, rest, rfl, plain_inner (plain.2 c (by simp [chars]))⟩
  next => exact ⟨_, _, String.toList_ofList, by decide⟩

private theorem words_word {line rest : List Char} {text : String}
    (starts : line.dropWhile separates = (Shell.word text).toList ++ rest)
    (behind : isOver noBlank separates rest = true) : words line = (words rest).map (text :: ·) := by
  obtain ⟨c, tail, begins, -⟩ := word_begins text
  obtain ⟨bare, plain, walked⟩ := word_stretch text
  have read : readFrom noBlank separates .bare ((Shell.word text).toList ++ rest) = some (text.toList, rest) :=
    readFrom_stretch rfl rfl walked (fun c member => plain_inner (plain c member)) behind
  rw [begins, List.cons_append] at starts read
  rw [words_next starts read, String.ofList_toList]

/-- Words as they stand behind the first one of a line. -/
def spaced (texts : List String) : List Char :=
  texts.flatMap fun text => ' ' :: (Shell.word text).toList

private theorem over_spaced (texts : List String) : isOver noBlank separates (spaced texts) = true := by
  cases texts <;> rfl

private theorem words_spaced (texts : List String) : words (spaced texts) = some texts := by
  induction texts with
  | nil => exact words_end rfl
  | cons text others ih =>
    obtain ⟨c, tail, begins, first⟩ := word_begins text
    have starts : (spaced (text :: others)).dropWhile separates = (Shell.word text).toList ++ spaced others := by
      have space : separates ' ' = true := by decide
      simp [spaced, begins, space, first]
    rw [words_word starts (over_spaced others), ih]
    rfl

private theorem inactive_spaced (texts : List String) :
    ∀ c ∈ (stretch .bare (spaced texts)).bare, isActive c = false := by
  induction texts with
  | nil => nofun
  | cons text others ih =>
    obtain ⟨bare, plain, walked⟩ := word_stretch text
    have split : (stretch .bare (spaced (text :: others))).bare =
        ' ' :: bare ++ (stretch .bare (spaced others)).bare := by
      simp [spaced, stretch, stretch_append, said, Mode.next, walked]
    rw [split, List.forall_mem_append, List.forall_mem_cons]
    exact ⟨⟨by decide, fun c member => plain_inactive (plain c member)⟩, ih⟩

private theorem intercalate_space (first : List Char) (others : List (List Char)) :
    [' '].intercalate (first :: others) = first ++ others.flatMap (' ' :: ·) := by
  induction others generalizing first with
  | nil => simp [List.intercalate]
  | cons next others ih =>
    have later := ih next
    simp only [List.intercalate] at later
    simp [List.intercalate, later]

private theorem line_spaced (command : Command) :
    command.line.toList = (Shell.word command.program).toList ++ spaced command.allArguments := by
  simp [Command.line, String.toList_intercalate, intercalate_space, spaced, List.flatMap_map]

/-- A shell takes the line of a command apart into the program and its arguments, and finds nothing in it that it would
expand or take for an operator. -/
theorem line_words (command : Command) :
    words command.line.toList = some (command.program :: command.allArguments) ∧
      ∀ c ∈ (stretch .bare command.line.toList).bare, isActive c = false := by
  rw [line_spaced]
  obtain ⟨c, tail, begins, first⟩ := word_begins command.program
  obtain ⟨bare, plain, walked⟩ := word_stretch command.program
  constructor
  · have starts : ((Shell.word command.program).toList ++ spaced command.allArguments).dropWhile separates =
        (Shell.word command.program).toList ++ spaced command.allArguments := by
      simp [begins, first]
    rw [words_word starts (over_spaced _), words_spaced]
    rfl
  · rw [stretch_append, walked, List.forall_mem_append]
    exact ⟨fun c member => plain_inactive (plain c member), inactive_spaced _⟩

end Montage.Proofs.CommandWords
