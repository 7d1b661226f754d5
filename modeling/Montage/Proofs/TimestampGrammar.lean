import Montage.Proofs.DecimalDigits
import Montage.Proofs.TextTrimming
import Montage.Subtitle.Timecode

/-! The timestamps that a cue may have. A text is read as one exactly when it is spelled as one, blanks around it apart,
and it then stands for the seconds that its numbers add up to. Any other text counts as zero. -/

namespace Montage.Proofs.TimestampGrammar
open Subtitle Number DecimalDigits TextTrimming

structure IsRun (digits : List Char) : Prop where
  all : ∀ c ∈ digits, isDigit c = true
  any : digits ≠ []

/-- A number that fits 32 bits. A plus may stand before its digits. -/
inductive IsWord : List Char → UInt32 → Prop where
  | plain {digits : List Char} {word : UInt32} (run : IsRun digits) (denotes : valueOf digits = word.toNat) :
      IsWord digits word
  | signed {digits : List Char} {word : UInt32} (run : IsRun digits) (denotes : valueOf digits = word.toNat) :
      IsWord ('+' :: digits) word

/-- The seconds of a timestamp, with the digits of a fraction or without. -/
inductive IsSeconds : List Char → UInt32 → Option (List Char) → Prop where
  | whole {text : List Char} {word : UInt32} (number : IsWord text word) : IsSeconds text word none
  | divided {text fraction : List Char} {separator : Char} {word : UInt32} (number : IsWord text word)
      (separates : separator = ',' ∨ separator = '.') (run : IsRun fraction) :
      IsSeconds (text ++ separator :: fraction) word (some fraction)

/-- A timestamp between blanks: its hours, minutes and seconds, and the digits of its fraction if it has one. -/
inductive IsTimestamp : List Char → UInt32 → UInt32 → UInt32 → Option (List Char) → Prop where
  | mk {before hours minutes seconds after : List Char} {hour minute second : UInt32} {fraction : Option (List Char)}
      (blank_before : ∀ c ∈ before, Text.isBlank c = true) (hours_word : IsWord hours hour)
      (minutes_word : IsWord minutes minute) (seconds_spelled : IsSeconds seconds second fraction)
      (blank_after : ∀ c ∈ after, Text.isBlank c = true) :
      IsTimestamp (before ++ (hours ++ ':' :: minutes ++ ':' :: seconds) ++ after) hour minute second fraction

/-- The number that `0.` and the digits of a fraction are read as. Without digits it is zero. -/
def fractionValue : Option (List Char) → Option Float
  | none => some 0
  | some digits => readDouble ('0' :: '.' :: digits)

section Cutting

private theorem pieces_join (separator : Char) (text : List Char) :
    [separator].intercalate (Text.pieces (· = separator) text) = text := by
  induction text with
  | nil => rfl
  | cons c rest ih =>
    unfold Text.pieces
    generalize same : Text.pieces (· = separator) rest = parts at ih
    cases parts with
    | nil => exact absurd same (Text.pieces_ne_nil _ rest)
    | cons first others =>
      split
      next cut =>
        rw [List.intercalate_cons_cons, ih, of_decide_eq_true cut]
        rfl
      next =>
        rw [← ih]
        cases others <;> simp [List.intercalate_cons_cons]

private theorem cutOnce_some {separates : Char → Bool} {text before after : List Char}
    (cut : Text.cutOnce separates text = some (before, after)) :
    ∃ c, separates c = true ∧ text = before ++ c :: after := by
  have whole := List.takeWhile_append_dropWhile (p := fun c => !separates c) (l := text)
  unfold Text.cutOnce at cut
  split at cut
  next => cases cut
  next c rest same =>
    cases cut
    have stops := List.head?_dropWhile_not (fun c => !separates c) text
    rw [same] at stops whole
    exact ⟨c, by simpa using stops, whole.symm⟩

private theorem cutOnce_none {separates : Char → Bool} {text : List Char} (absent : ∀ c ∈ text, separates c = false) :
    Text.cutOnce separates text = none := by
  have passed : text.dropWhile (fun c => !separates c) = [] :=
    List.dropWhile_eq_nil_iff.mpr fun c member => by simp [absent c member]
  rw [Text.cutOnce, passed]

end Cutting

section Words

theorem digit_inked {c : Char} (digit : isDigit c = true) :
    Text.isBlank c = false ∧ c ≠ ':' ∧ c ≠ ',' ∧ c ≠ '.' ∧ c ≠ '+' := by
  have all : ∀ n < 10, Text.isBlank n.digitChar = false ∧ n.digitChar ≠ ':' ∧ n.digitChar ≠ ',' ∧ n.digitChar ≠ '.' ∧
    n.digitChar ≠ '+' := by decide
  obtain ⟨small, same⟩ := isDigit_value digit
  exact same ▸ all _ small

theorem run_iff {digits : List Char} : IsRun digits ↔ (digits.isEmpty || !digits.all isDigit) = false := by
  rw [Bool.or_eq_false_iff, Bool.not_eq_false', List.all_eq_true, List.isEmpty_eq_false_iff]
  exact ⟨fun run => ⟨run.any, run.all⟩, fun ⟨any, all⟩ => ⟨all, any⟩⟩

theorem readNatural_iff {limit value : Nat} {text : List Char} : readNatural limit text = some value ↔
    ∃ digits, IsRun digits ∧ (text = digits ∨ text = '+' :: digits) ∧ valueOf digits = value ∧ value ≤ limit := by
  have bare (digits : List Char) : (if digits.isEmpty || !digits.all isDigit then none
      else if valueOf digits ≤ limit then some (valueOf digits) else none) = some value ↔
        IsRun digits ∧ valueOf digits = value ∧ value ≤ limit := by
    rw [run_iff]
    cases digits.isEmpty || !digits.all isDigit with
    | true => simp
    | false =>
      simp only [Bool.false_eq_true, if_false, true_and, Option.ite_none_right_eq_some, Option.some.injEq]
      constructor
      · rintro ⟨fits, rfl⟩
        exact ⟨rfl, fits⟩
      · rintro ⟨rfl, fits⟩
        exact ⟨fits, rfl⟩
  unfold readNatural
  split
  next rest =>
    apply (bare rest).trans
    constructor
    · intro read
      exact ⟨rest, read.1, .inr rfl, read.2⟩
    · rintro ⟨digits, run, same | same, read⟩
      · exact absurd rfl (digit_inked (run.all '+' (same ▸ List.mem_cons_self))).2.2.2.2
      · rw [List.cons.inj same |>.2]
        exact ⟨run, read⟩
  next unsigned =>
    apply (bare text).trans
    constructor
    · intro read
      exact ⟨text, read.1, .inl rfl, read.2⟩
    · rintro ⟨digits, run, rfl | same, read⟩
      · exact ⟨run, read⟩
      · exact absurd same (unsigned digits)

theorem readWord_iff {text : List Char} {word : UInt32} : readWord text = some word ↔ IsWord text word := by
  simp only [readWord, Option.map_eq_some_iff, readNatural_iff]
  constructor
  · rintro ⟨value, ⟨digits, run, spelled, denotes, fits⟩, rfl⟩
    have same : valueOf digits = (UInt32.ofNat value).toNat := by
      rw [denotes, UInt32.toNat_ofNat_of_lt' (Nat.lt_of_le_pred (by decide) fits)]
    obtain rfl | rfl := spelled
    · exact .plain run same
    · exact .signed run same
  · intro spelled
    have fits : word.toNat ≤ UInt32.size - 1 := Nat.le_pred_of_lt word.toNat_lt
    obtain ⟨run, denotes⟩ | ⟨run, denotes⟩ := spelled
    · exact ⟨_, ⟨_, run, .inl rfl, denotes, fits⟩, UInt32.ofNat_toNat⟩
    · exact ⟨_, ⟨_, run, .inr rfl, denotes, fits⟩, UInt32.ofNat_toNat⟩

variable {text : List Char} {word : UInt32}

private theorem word_any (spelled : IsWord text word) : text ≠ [] := by
  cases spelled with
  | plain run => exact run.any
  | signed => exact List.cons_ne_nil _ _

theorem word_inked (spelled : IsWord text word) :
    ∀ c ∈ text, Text.isBlank c = false ∧ c ≠ ':' ∧ c ≠ ',' ∧ c ≠ '.' := by
  have digits {digits : List Char} (run : IsRun digits) :
      ∀ c ∈ digits, Text.isBlank c = false ∧ c ≠ ':' ∧ c ≠ ',' ∧ c ≠ '.' := fun c member => by
    obtain ⟨blank, colon, comma, point, -⟩ := digit_inked (run.all c member)
    exact ⟨blank, colon, comma, point⟩
  cases spelled with
  | plain run => exact digits run
  | signed run => exact List.forall_mem_cons.mpr ⟨by decide, digits run⟩

end Words

section Seconds
variable {text : List Char} {word : UInt32} {fraction : Option (List Char)}

theorem separator_iff {c : Char} : (decide (c = ',') || decide (c = '.')) = true ↔ c = ',' ∨ c = '.' := by
  simp

private theorem word_undivided (spelled : IsWord text word) :
    ∀ c ∈ text, (decide (c = ',') || decide (c = '.')) = false := by
  intro c member
  obtain ⟨-, -, comma, point⟩ := word_inked spelled c member
  simp [comma, point]

/-- The first separator is the only one, since neither a number nor the digits of a fraction have any. -/
private theorem secondParts_spelled (spelled : IsSeconds text word fraction) :
    ∃ whole, secondParts text = (whole, fraction.getD ['0']) ∧ IsWord whole word := by
  cases spelled with
  | whole number =>
    rw [secondParts, cutOnce_none (word_undivided number)]
    exact ⟨_, rfl, number⟩
  | divided number separates run =>
    rw [secondParts, Text.cutOnce_append (word_undivided number) (separator_iff.mpr separates)]
    exact ⟨_, rfl, number⟩

private theorem seconds_of_parts {whole digits : List Char} (parts : secondParts text = (whole, digits))
    (number : IsWord whole word) (run : IsRun digits) :
    ∃ fraction, IsSeconds text word fraction ∧ fraction.getD ['0'] = digits := by
  unfold secondParts at parts
  split at parts
  next cut =>
    rw [parts] at cut
    obtain ⟨separator, separates, rfl⟩ := cutOnce_some cut
    exact ⟨some digits, .divided number (separator_iff.mp separates) run, rfl⟩
  next =>
    obtain ⟨rfl, rfl⟩ := Prod.mk.inj parts
    exact ⟨none, .whole number, rfl⟩

private theorem seconds_fraction (spelled : IsSeconds text word fraction) : ∀ digits ∈ fraction, IsRun digits := by
  intro digits member
  cases spelled with
  | whole => cases member
  | divided number separates run =>
    cases member
    exact run

private theorem seconds_whole (spelled : IsSeconds text word fraction) : ∀ c ∈ text, c ≠ ':' := by
  intro c member
  cases spelled with
  | whole number => exact (word_inked number c member).2.1
  | divided number separates run =>
    obtain before | after := List.mem_append.mp member
    · exact (word_inked number c before).2.1
    · obtain rfl | digit := List.mem_cons.mp after
      · obtain rfl | rfl := separates <;> decide
      · exact (digit_inked (run.all c digit)).2.1

private theorem seconds_last (spelled : IsSeconds text word fraction) :
    ∃ front c, text = front ++ [c] ∧ Text.isBlank c = false := by
  have ends {text : List Char} (any : text ≠ []) (inked : ∀ c ∈ text, Text.isBlank c = false) :
      ∃ front c, text = front ++ [c] ∧ Text.isBlank c = false :=
    ⟨text.dropLast, text.getLast any, (List.dropLast_concat_getLast any).symm, inked _ (List.getLast_mem any)⟩
  cases spelled with
  | whole number => exact ends (word_any number) fun c member => (word_inked number c member).1
  | @divided before digits separator word number separates run =>
    obtain ⟨front, c, rfl, inked⟩ := ends run.any fun c member => (digit_inked (run.all c member)).1
    exact ⟨before ++ separator :: front, c, by simp, inked⟩

end Seconds

section Reading

/-- A text has two separators, and three parts, in one way. -/
theorem three_pieces_iff {text first second third : List Char} : Text.pieces (· = ':') text = [first, second, third] ↔
    text = first ++ ':' :: second ++ ':' :: third ∧ ∀ part ∈ [first, second, third], ∀ c ∈ part, c ≠ ':' := by
  constructor
  · intro cut
    refine ⟨?_, ?_⟩
    · rw [← pieces_join ':' text, cut]
      simp [List.intercalate_cons_cons]
    · intro part member c inside
      exact of_decide_eq_false (Text.pieces_free _ text part (cut ▸ member) c inside)
  · rintro ⟨rfl, free⟩
    have whole (part : List Char) (member : part ∈ [first, second, third]) : ∀ c ∈ part, decide (c = ':') = false :=
      fun c inside => decide_eq_false (free part member c inside)
    rw [List.append_assoc, List.cons_append, Text.pieces_append _ _ _ (by rfl), Text.pieces_append _ _ _ (by rfl)]
    rw [Text.pieces_whole _ (whole first (by simp)), Text.pieces_whole _ (whole second (by simp)),
      Text.pieces_whole _ (whole third (by simp))]
    rfl

variable {text : String} {hour minute second : UInt32} {fraction : Option (List Char)}

private theorem timestamp_fraction {text : List Char} (spelled : IsTimestamp text hour minute second fraction) :
    ∀ digits ∈ fraction, IsRun digits := by
  cases spelled with
  | mk blank_before hours_word minutes_word spelled => exact seconds_fraction spelled

theorem parseTime_spelled (spelled : IsTimestamp text.toList hour minute second fraction) :
    parseTime text = some (secondsOf hour minute second (fraction.getD ['0'])) := by
  generalize given : text.toList = chars at spelled
  obtain @⟨before, hours, minutes, seconds, after, _, _, _, _, blank_before, hours_word, minutes_word, spelled,
    blank_after⟩ := spelled
  obtain ⟨front, last, ends, inked⟩ := seconds_last spelled
  have trimmed : Text.trim text.toList = hours ++ ':' :: minutes ++ ':' :: seconds := by
    rw [given]
    apply trim_between blank_before ?_ (by simp) ?_ blank_after
    · intro c begins
      have member : c ∈ hours := by
        cases hours with
        | nil => exact absurd rfl (word_any hours_word)
        | cons first rest => exact Option.some.inj begins ▸ List.mem_cons_self
      exact (word_inked hours_word c member).1
    · intro c final
      rw [ends, ← List.cons_append, ← List.append_assoc, List.getLast?_concat] at final
      exact Option.some.inj final ▸ inked
  have cut : Text.pieces (· = ':') (Text.trim text.toList) = [hours, minutes, seconds] := by
    rw [three_pieces_iff]
    refine ⟨trimmed, ?_⟩
    simp only [List.forall_mem_cons, List.not_mem_nil, false_imp_iff, implies_true, and_true]
    exact ⟨fun c member => (word_inked hours_word c member).2.1, fun c member => (word_inked minutes_word c member).2.1,
      seconds_whole spelled⟩
  obtain ⟨whole, parts, number⟩ := secondParts_spelled spelled
  have run : IsRun (fraction.getD ['0']) := by
    cases fraction with
    | none => exact run_iff.mpr rfl
    | some digits => exact seconds_fraction spelled digits rfl
  simp only [parseTime, cut, parts, readWord_iff.mpr hours_word, readWord_iff.mpr minutes_word,
    readWord_iff.mpr number, run_iff.mp run, Bool.false_eq_true, if_false]

private theorem timestamp_of_parse {time : Float} (read : parseTime text = some time) : ∃ hour minute second fraction,
    IsTimestamp text.toList hour minute second fraction ∧
      time = secondsOf hour minute second (fraction.getD ['0']) := by
  unfold parseTime at read
  split at read
  next hours minutes seconds cut =>
    obtain ⟨joined, -⟩ := three_pieces_iff.mp cut
    generalize parts : secondParts seconds = pair at read
    obtain ⟨whole, digits⟩ := pair
    simp only at read
    split at read
    next hour minute second hours_read minutes_read seconds_read =>
      split at read
      · cases read
      next run =>
        obtain ⟨fraction, spelled, rfl⟩ := seconds_of_parts parts (readWord_iff.mp seconds_read)
          (run_iff.mpr (Bool.eq_false_iff.mpr run))
        obtain ⟨before, after, blank_before, blank_after, split⟩ := trim_split text.toList
        refine ⟨hour, minute, second, fraction, ?_, (Option.some.inj read).symm⟩
        rw [split, joined]
        exact .mk blank_before (readWord_iff.mp hours_read) (readWord_iff.mp minutes_read) spelled blank_after
    next => cases read
  next => cases read

private theorem readDouble_fraction {digits : List Char} (run : IsRun digits) :
    readDouble ('0' :: '.' :: digits) = some (ofDecimal false (valueOf digits) (-digits.length)) := by
  have taken : digits.takeWhile isDigit = digits := List.takeWhile_eq_self_iff.mpr run.all
  have dropped : digits.dropWhile isDigit = [] := List.dropWhile_eq_nil_iff.mpr run.all
  have zero : valueOf ('0' :: digits) = valueOf digits := rfl
  have lead (word : List Char) (begins : word.head? ≠ some '0') : ('0' :: '.' :: digits).map Char.toLower ≠ word :=
    fun same => begins (same ▸ rfl)
  have unnamed : ¬(('0' :: '.' :: digits).map Char.toLower = "inf".toList ∨
      ('0' :: '.' :: digits).map Char.toLower = "infinity".toList) :=
    not_or.mpr ⟨lead _ (by decide), lead _ (by decide)⟩
  have number : readDouble ('0' :: '.' :: digits) = readDecimal false ('0' :: '.' :: digits) := by
    unfold readDouble
    exact (if_neg unnamed).trans (if_neg (lead _ (by decide)))
  have whole : ('0' :: '.' :: digits).takeWhile isDigit = ['0'] := rfl
  have rest : ('0' :: '.' :: digits).dropWhile isDigit = '.' :: digits := rfl
  simp only [number, readDecimal, whole, rest, taken, dropped]
  simp [readExponent, zero]

private theorem fractionValue_some (digits : ∀ digits ∈ fraction, IsRun digits) : fractionValue fraction =
    some (ofDecimal false (valueOf (fraction.getD ['0'])) (-(fraction.getD ['0']).length)) := by
  cases fraction with
  | none => rfl
  | some given => exact readDouble_fraction (digits given rfl)

end Reading

/-- A text is a time exactly when it is spelled as a timestamp: of words and digits alone, blanks at its ends apart. Its
hours, minutes, seconds and fraction are then added up in this order. What is no timestamp counts as zero. -/
theorem timestamps_exact (text : String) :
    ((parseTime text).isSome ↔ ∃ hour minute second fraction, IsTimestamp text.toList hour minute second fraction) ∧
    (∀ hour minute second fraction, IsTimestamp text.toList hour minute second fraction → ∃ part,
      fractionValue fraction = some part ∧
        parseTime text = some (hour.toFloat * 3600 + minute.toFloat * 60 + second.toFloat + part) ∧
        seconds text = hour.toFloat * 3600 + minute.toFloat * 60 + second.toFloat + part) ∧
    ((¬ ∃ hour minute second fraction, IsTimestamp text.toList hour minute second fraction) → seconds text = 0) := by
  have spelled_iff : (parseTime text).isSome ↔
      ∃ hour minute second fraction, IsTimestamp text.toList hour minute second fraction := by
    rw [Option.isSome_iff_exists]
    constructor
    · rintro ⟨time, read⟩
      obtain ⟨hour, minute, second, fraction, spelled, -⟩ := timestamp_of_parse read
      exact ⟨hour, minute, second, fraction, spelled⟩
    · rintro ⟨hour, minute, second, fraction, spelled⟩
      exact ⟨_, parseTime_spelled spelled⟩
  refine ⟨spelled_iff, ?_, ?_⟩
  · intro hour minute second fraction spelled
    have read := parseTime_spelled spelled
    refine ⟨_, fractionValue_some (timestamp_fraction spelled), read, ?_⟩
    rw [seconds, read]
    rfl
  · intro none
    rw [← spelled_iff, Option.not_isSome_iff_eq_none] at none
    rw [seconds, none]
    rfl

end Montage.Proofs.TimestampGrammar
