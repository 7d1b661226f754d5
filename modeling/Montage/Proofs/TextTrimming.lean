import Mathlib.Data.List.TakeWhile
import Montage.Text.Blank

/-! Texts between blanks. Trimming takes the blanks off both ends, and nothing else. -/

namespace Montage.Proofs.TextTrimming

/-- A text without the blanks around it. -/
structure Trimmed (text path : List Char) : Prop where
  cut : ∃ before after, text = before ++ path ++ after ∧ (∀ c ∈ before, Text.isBlank c = true) ∧
    ∀ c ∈ after, Text.isBlank c = true
  begins : ∀ c ∈ path.head?, Text.isBlank c = false
  ends : ∀ c ∈ path.getLast?, Text.isBlank c = false

theorem trim_between {before core after : List Char} (blank_before : ∀ c ∈ before, Text.isBlank c = true)
    (begins : ∀ c ∈ core.head?, Text.isBlank c = false) (some_ink : core ≠ [])
    (ends : ∀ c ∈ core.getLast?, Text.isBlank c = false) (blank_after : ∀ c ∈ after, Text.isBlank c = true) :
    Text.trim (before ++ core ++ after) = core := by
  have start : Text.trimStart (before ++ core ++ after) = core ++ after := by
    rw [Text.trimStart, List.append_assoc, List.dropWhile_append_of_pos blank_before]
    cases core with
    | nil => exact absurd rfl some_ink
    | cons c rest => rw [List.cons_append, List.dropWhile_cons_of_neg (by simp [begins c rfl])]
  have blank_reverse : ∀ c ∈ after.reverse, Text.isBlank c = true := fun c member =>
    blank_after c (List.mem_reverse.mp member)
  have trimmed := Text.trim_inked begins ends
  rw [Text.trim, start, Text.trimEnd, List.reverse_append, List.dropWhile_append_of_pos blank_reverse]
  rw [Text.trim, Text.trimEnd, Text.trimStart] at trimmed
  cases core with
  | nil => exact absurd rfl some_ink
  | cons c rest => rwa [List.dropWhile_cons_of_neg (by simp [begins c rfl])] at trimmed

theorem trim_split (text : List Char) : ∃ before after, (∀ c ∈ before, Text.isBlank c = true) ∧
    (∀ c ∈ after, Text.isBlank c = true) ∧ text = before ++ Text.trim text ++ after := by
  have blank (text : List Char) : ∀ c ∈ text.takeWhile Text.isBlank, Text.isBlank c = true :=
    fun c member => (List.mem_takeWhile_imp member)
  refine ⟨text.takeWhile Text.isBlank, ((Text.trimStart text).reverse.takeWhile Text.isBlank).reverse, blank text,
    fun c member => blank _ c (List.mem_reverse.mp member), ?_⟩
  rw [List.append_assoc, Text.trim, Text.trimEnd, ← List.reverse_append, List.takeWhile_append_dropWhile,
    List.reverse_reverse, Text.trimStart, List.takeWhile_append_dropWhile]

private theorem trim_ends (text : List Char) : ∀ c ∈ (Text.trim text).getLast?, Text.isBlank c = false := by
  intro c last
  rw [Text.trim, Text.trimEnd, List.getLast?_reverse] at last
  have stops := List.head?_dropWhile_not Text.isBlank (Text.trimStart text).reverse
  rw [last] at stops
  exact stops

private theorem trim_begins (text : List Char) : ∀ c ∈ (Text.trim text).head?, Text.isBlank c = false := by
  intro c first
  obtain ⟨rest, same⟩ := List.head?_eq_some_iff.mp first
  have cut : Text.trimStart text = c :: rest ++ ((Text.trimStart text).reverse.takeWhile Text.isBlank).reverse := by
    rw [← same, Text.trim, Text.trimEnd, ← List.reverse_append, List.takeWhile_append_dropWhile,
      List.reverse_reverse]
  have stops := List.head?_dropWhile_not Text.isBlank text
  rw [← Text.trimStart, cut] at stops
  exact stops

theorem trimmed_iff {text path : List Char} : Trimmed text path ↔ path = Text.trim text := by
  constructor
  · intro trimmed
    obtain ⟨before, after, rfl, blank_before, blank_after⟩ := trimmed.cut
    by_cases none : path = []
    · subst none
      have start : Text.trimStart (before ++ [] ++ after) = [] := by
        rw [List.append_nil, Text.trimStart, List.dropWhile_eq_nil_iff]
        exact List.forall_mem_append.mpr ⟨blank_before, blank_after⟩
      rw [Text.trim, start]
      rfl
    · exact (trim_between blank_before trimmed.begins none trimmed.ends blank_after).symm
  · intro same
    subst same
    obtain ⟨before, after, blank_before, blank_after, same⟩ := trim_split text
    exact ⟨⟨before, after, same, blank_before, blank_after⟩, trim_begins text, trim_ends text⟩

end Montage.Proofs.TextTrimming
