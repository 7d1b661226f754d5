import Montage.Proofs.FilterGrammar

/-! Tokens with quotations. Outside of quotes a backslash lets the next character mean itself, and a quote begins a run
in which every character up to the next quote means itself. A token goes up to a bare character that ends it. Blanks
around it may count as no part of it, unless they are quoted or escaped. -/

namespace Montage.Proofs.QuotedTokens
open FilterGrammar

/-- What a character says. The signs of quoting say nothing themselves. -/
def said : Mode → Char → List Char
  | .bare, c => if c = '\\' ∨ c = '\'' then [] else [c]
  | .escaped, c => [c]
  | .quoted, c => if c = '\'' then [] else [c]

/-- Whether a token is over, but for blanks that it is trimmed of. -/
def isOver (trims ends : Char → Bool) (text : List Char) : Bool :=
  (text.dropWhile trims).head?.all ends

/-- What a token says from a mode on, and the text behind it. Quotes have to be closed, and something has to follow a
backslash. -/
def readFrom (trims ends : Char → Bool) : Mode → List Char → Option (List Char × List Char)
  | mode, [] => if mode = .bare then some ([], []) else none
  | mode, c :: rest =>
    if mode = .bare ∧ isOver trims ends (c :: rest) then some ([], (c :: rest).dropWhile trims)
    else (readFrom trims ends (mode.next c) rest).map fun (text, left) => (said mode c ++ text, left)

def readToken (trims ends : Char → Bool) (text : List Char) : Option (List Char × List Char) :=
  readFrom trims ends .bare (text.dropWhile trims)

theorem readFrom_length {trims ends : Char → Bool} {mode : Mode} {text word left : List Char}
    (read : readFrom trims ends mode text = some (word, left)) : left.length ≤ text.length := by
  induction text generalizing mode word with
  | nil =>
    unfold readFrom at read
    split at read <;> cases read
    exact Nat.le_refl _
  | cons c rest ih =>
    unfold readFrom at read
    split at read
    · cases read
      exact (List.dropWhile_sublist _).length_le
    · obtain ⟨⟨text, left⟩, later, same⟩ := Option.map_eq_some_iff.mp read
      cases same
      exact Nat.le_succ_of_le (ih later)

theorem readFrom_shorter {trims ends : Char → Bool} {mode : Mode} {c : Char} {rest word left : List Char}
    (begins : isOver trims ends (c :: rest) = false) (read : readFrom trims ends mode (c :: rest) = some (word, left)) :
    left.length ≤ rest.length := by
  rw [readFrom, if_neg (by simp [begins])] at read
  obtain ⟨⟨text, left⟩, later, same⟩ := Option.map_eq_some_iff.mp read
  cases same
  exact readFrom_length later

def noBlank (_ : Char) : Bool :=
  false

/-- What a stretch of text amounts to that begins in some mode. -/
structure Stretch where
  said : List Char
  /-- The characters that are neither quoted nor escaped and no signs of quoting. -/
  bare : List Char
  last : Mode

def stretch : Mode → List Char → Stretch
  | mode, [] => ⟨[], [], mode⟩
  | mode, c :: rest =>
    let later := stretch (mode.next c) rest
    ⟨said mode c ++ later.said, (if mode = .bare then said mode c else []) ++ later.bare, later.last⟩

theorem stretch_append (mode : Mode) (first second : List Char) : stretch mode (first ++ second) =
    ⟨(stretch mode first).said ++ (stretch (stretch mode first).last second).said,
      (stretch mode first).bare ++ (stretch (stretch mode first).last second).bare,
      (stretch (stretch mode first).last second).last⟩ := by
  induction first generalizing mode with
  | nil => rfl
  | cons c rest ih => simp only [List.cons_append, stretch, ih, List.append_assoc]

/-- A text that is written character by character, each in a way that comes back to the mode it began in. -/
theorem stretch_flatMap {mode : Mode} {write means leaves : Char → List Char} {text : List Char}
    (each : ∀ c ∈ text, stretch mode (write c) = ⟨means c, leaves c, mode⟩) :
    stretch mode (text.flatMap write) = ⟨text.flatMap means, text.flatMap leaves, mode⟩ := by
  induction text with
  | nil => rfl
  | cons c rest ih =>
    have later := ih fun other member => each other (List.mem_cons_of_mem _ member)
    simp only [List.flatMap_cons, stretch_append, each c List.mem_cons_self, later]

section Untrimmed
variable {ends : Char → Bool}

theorem isOver_cons (c : Char) (rest : List Char) : isOver noBlank ends (c :: rest) = ends c := rfl

private theorem readFrom_over {rest : List Char} (behind : isOver noBlank ends rest = true) :
    readFrom noBlank ends .bare rest = some ([], rest) := by
  cases rest with
  | nil => rfl
  | cons c rest => simp [readFrom, behind, noBlank]

variable (slash : ends '\\' = false) (quote : ends '\'' = false)
include slash quote

/-- A stretch is read as one token if none of its bare characters ends it and it leaves nothing open. -/
theorem readFrom_stretch {mode : Mode} {text word bare : List Char} (walked : stretch mode text = ⟨word, bare, .bare⟩)
    (inner : ∀ c ∈ bare, ends c = false) {rest : List Char} (behind : isOver noBlank ends rest = true) :
    readFrom noBlank ends mode (text ++ rest) = some (word, rest) := by
  induction text generalizing mode word bare with
  | nil =>
    cases walked
    exact readFrom_over behind
  | cons c text ih =>
    obtain ⟨rfl, rfl, closed⟩ := Stretch.mk.inj walked
    have later := ih (by rw [← closed]) fun other member => inner other (List.mem_append_right _ member)
    have goes : ¬(mode = .bare ∧ isOver noBlank ends (c :: (text ++ rest)) = true) := by
      rintro ⟨rfl, ended⟩
      rw [isOver_cons] at ended
      by_cases sign : c = '\\' ∨ c = '\''
      · obtain rfl | rfl := sign <;> simp_all
      · have := inner c (by simp [said, sign])
        simp_all
    rw [List.cons_append, readFrom, if_neg goes, later]
    rfl

end Untrimmed

section Trimmed
variable {trims ends : Char → Bool}

private theorem last_tail {c : Char} {rest : List Char} (last : ∀ d ∈ (c :: rest).getLast?, trims d = false) :
    ∀ d ∈ rest.getLast?, trims d = false := by
  intro d member
  apply last
  rw [List.getLast?_cons, member]
  rfl

variable (slash : trims '\\' = false) (quote : trims '\'' = false)
include slash quote

/-- A text that is read whole without trimming, and that does not end with a blank, is not over before its end with
trimming either. -/
private theorem not_over {text word : List Char} (some_text : text ≠ []) (last : ∀ c ∈ text.getLast?, trims c = false)
    (read : readFrom noBlank ends .bare text = some (word, [])) : isOver trims ends text = false := by
  induction text generalizing word with
  | nil => exact absurd rfl some_text
  | cons c rest ih =>
    have going : ends c = false := by
      cases stops : ends c with
      | false => rfl
      | true =>
        rw [readFrom_over (isOver_cons c rest ▸ stops)] at read
        cases read
    cases trimmed : trims c with
    | false => simp [isOver, trimmed, going]
    | true =>
      have plain : ¬(c = '\\' ∨ c = '\'') := by
        rintro (rfl | rfl) <;> simp_all
      have some_rest : rest ≠ [] := by
        rintro rfl
        simp [trimmed] at last
      have stays : Mode.bare.next c = .bare := by
        rw [not_or] at plain
        simp [Mode.next, plain]
      rw [readFrom, if_neg (by simp [isOver_cons, going]), stays, Option.map_eq_some_iff] at read
      obtain ⟨⟨text, left⟩, later, same⟩ := read
      cases same
      have inside := ih some_rest (last_tail last) later
      simpa [isOver, trimmed] using inside

private theorem readFrom_trimmed {mode : Mode} {text word : List Char} (last : ∀ c ∈ text.getLast?, trims c = false)
    (read : readFrom noBlank ends mode text = some (word, [])) : readFrom trims ends mode text = some (word, []) := by
  induction text generalizing mode word with
  | nil => exact read
  | cons c rest ih =>
    have goes : ¬(mode = .bare ∧ isOver trims ends (c :: rest) = true) := by
      rintro ⟨rfl, closed⟩
      rw [not_over slash quote (List.cons_ne_nil _ _) last read] at closed
      cases closed
    unfold readFrom at read
    split at read
    · cases read
    · obtain ⟨⟨text, left⟩, later, same⟩ := Option.map_eq_some_iff.mp read
      cases same
      rw [readFrom, if_neg goes, ih (last_tail last) later]
      rfl

/-- A text that neither begins nor ends with a blank is read as one token, trimmed or not. -/
theorem readToken_stretch {text word bare : List Char} (signs : ends '\\' = false ∧ ends '\'' = false)
    (walked : stretch .bare text = ⟨word, bare, .bare⟩) (inner : ∀ c ∈ bare, ends c = false)
    (first : ∀ c ∈ text.head?, trims c = false) (last : ∀ c ∈ text.getLast?, trims c = false) :
    readToken trims ends text = some (word, []) := by
  have begins : text.dropWhile trims = text := by
    cases text with
    | nil => rfl
    | cons c rest => simp [first c rfl]
  have whole : readFrom noBlank ends .bare (text ++ []) = some (word, []) :=
    readFrom_stretch signs.1 signs.2 walked inner rfl
  rw [List.append_nil] at whole
  rw [readToken, begins]
  exact readFrom_trimmed slash quote last whole

end Trimmed

end Montage.Proofs.QuotedTokens
