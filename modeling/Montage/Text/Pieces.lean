/-! Cutting text at separators. -/

namespace Montage.Text

/-- The pieces between the characters that `separates` picks out; their number is one more than
that of the separators. -/
def pieces (separates : Char → Bool) : List Char → List (List Char)
  | [] => [[]]
  | c :: rest =>
    if separates c then [] :: pieces separates rest
    else match pieces separates rest with
      | [] => [[c]]
      | first :: others => (c :: first) :: others

theorem pieces_ne_nil (separates : Char → Bool) (text : List Char) : pieces separates text ≠ [] := by
  cases text with
  | nil => simp [pieces]
  | cons c rest =>
    unfold pieces
    split
    · simp
    · split <;> simp

theorem pieces_length (separates : Char → Bool) (text : List Char) :
    (pieces separates text).length = text.countP separates + 1 := by
  induction text with
  | nil => rfl
  | cons c rest ih =>
    unfold pieces
    split
    next cut => rw [List.length_cons, ih, List.countP_cons_of_pos cut]
    next keep =>
      rw [List.countP_cons_of_neg keep, ← ih]
      cases some_piece : pieces separates rest with
      | nil => exact absurd some_piece (pieces_ne_nil separates rest)
      | cons piece others => rfl

theorem pieces_append (separates : Char → Bool) (first second : List Char) {c : Char} (cut : separates c = true) :
    pieces separates (first ++ c :: second) = pieces separates first ++ pieces separates second := by
  induction first with
  | nil => simp [pieces, cut]
  | cons d rest ih =>
    simp only [List.cons_append, pieces]
    split
    · rw [ih]
      rfl
    · rw [ih]
      cases some_piece : pieces separates rest with
      | nil => exact absurd some_piece (pieces_ne_nil separates rest)
      | cons piece others => rfl

theorem pieces_whole (separates : Char → Bool) {text : List Char} (whole : ∀ c ∈ text, separates c = false) :
    pieces separates text = [text] := by
  induction text with
  | nil => rfl
  | cons c rest ih =>
    have first := whole c (by simp)
    simp [pieces, first, ih fun d member => whole d (List.mem_cons_of_mem _ member)]

/-- What the pieces are made of are the characters between the separators. -/
theorem pieces_characters (separates : Char → Bool) (text : List Char) :
    ∀ piece ∈ pieces separates text, ∀ c ∈ piece, c ∈ text ∧ separates c = false := by
  induction text with
  | nil => simp [pieces]
  | cons d rest ih =>
    have later {parts : List (List Char)} (kept : ∀ piece ∈ parts, ∀ c ∈ piece, c ∈ rest ∧ separates c = false) :
        ∀ piece ∈ parts, ∀ c ∈ piece, c ∈ d :: rest ∧ separates c = false := fun piece member c inside =>
      ⟨List.mem_cons_of_mem _ (kept piece member c inside).1, (kept piece member c inside).2⟩
    unfold pieces
    split
    · exact List.forall_mem_cons.mpr ⟨List.forall_mem_nil _, later ih⟩
    next keep =>
      split
      next none => exact absurd none (pieces_ne_nil separates rest)
      next head others same =>
        rw [same, List.forall_mem_cons] at ih
        refine List.forall_mem_cons.mpr ⟨List.forall_mem_cons.mpr ⟨?_, fun c inside => ?_⟩, later ih.2⟩
        · exact ⟨List.mem_cons_self, Bool.eq_false_iff.mpr keep⟩
        · exact ⟨List.mem_cons_of_mem _ (ih.1 c inside).1, (ih.1 c inside).2⟩

theorem pieces_free (separates : Char → Bool) (text : List Char) :
    ∀ piece ∈ pieces separates text, ∀ c ∈ piece, separates c = false :=
  fun piece member c inside => (pieces_characters separates text piece member c inside).2

/-- What stands before and after the first character that `separates` picks out. -/
def cutOnce (separates : Char → Bool) (text : List Char) : Option (List Char × List Char) :=
  match text.dropWhile (fun c => !separates c) with
  | [] => none
  | _ :: after => some (text.takeWhile (fun c => !separates c), after)

theorem cutOnce_append {separator : Char → Bool} {before after : List Char} {c : Char}
    (absent : ∀ d ∈ before, separator d = false) (present : separator c = true) :
    cutOnce separator (before ++ c :: after) = some (before, after) := by
  have passes : ∀ d ∈ before, (!separator d) = true := fun d member => by simp [absent d member]
  unfold cutOnce
  rw [List.dropWhile_append_of_pos passes, List.takeWhile_append_of_pos passes]
  simp [present]

/-- The lines of a text. A line ends at a line feed, and one carriage return before that belongs to
the end; a last line needs no end, and an empty one after the last end does not count. -/
def linesOf (text : List Char) : List (List Char) :=
  let cut := pieces (· = '\n') text
  let ended := cut.dropLast.map fun line => if line.getLast? = some '\r' then line.dropLast else line
  match cut.getLast? with
  | some [] | none => ended
  | some last => ended ++ [last]

end Montage.Text
