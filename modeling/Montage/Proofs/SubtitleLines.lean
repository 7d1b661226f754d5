import Montage.Proofs.NumberText
import Montage.Proofs.RequestViolations
import Montage.Proofs.TrackTimes

/-! Subtitle tracks as lines, and lines as fields. What is put between the commas of a line is told apart again as long as
it holds none itself, and of the texts that go into a track only the font of a style and the texts of cues may. -/

namespace Montage.Proofs.SubtitleLines
open Subtitle Number NumberText TrackTimes

section Cutting

theorem document_pieces (cues : List Cue) (style : Option Style) (width height : UInt32) :
    Text.pieces (· = '\n') (document cues style width height).toList =
      (lines cues style width height).flatMap (fun line => Text.pieces (· = '\n') line.toList) ++ [[]] := by
  unfold document
  induction lines cues style width height with
  | nil => rfl
  | cons line rest ih =>
    rw [List.map_cons, String.join_cons, String.toList_append, String.toList_append, List.append_assoc]
    rw [List.flatMap_cons, List.append_assoc, ← ih]
    exact Text.pieces_append _ _ _ rfl

theorem pieces_fields {fields : List (List Char)} (some_field : fields ≠ []) :
    Text.pieces (· = ',') ([','].intercalate fields) = fields.flatMap (Text.pieces (· = ',')) := by
  induction fields with
  | nil => exact absurd rfl some_field
  | cons field rest ih =>
    cases rest with
    | nil => simp
    | cons next others =>
      rw [List.intercalate_cons_cons, List.flatMap_cons, ← ih (List.cons_ne_nil _ _), List.append_assoc]
      exact Text.pieces_append _ _ _ rfl

end Cutting

section Undivided

/-- A text that divides nothing it is put into: it has no comma and no line feed. -/
def Undivided (text : List Char) : Prop :=
  text.all (fun c => c != ',' && c != '\n') = true

theorem undivided_iff {text : List Char} : Undivided text ↔ ∀ c ∈ text, c ≠ ',' ∧ c ≠ '\n' := by
  simp [Undivided]

@[simp] theorem undivided_append (first second : List Char) :
    Undivided (first ++ second) ↔ Undivided first ∧ Undivided second := by
  simp [Undivided]

@[simp] theorem undivided_cons (c : Char) (rest : List Char) :
    Undivided (c :: rest) ↔ (c ≠ ',' ∧ c ≠ '\n') ∧ Undivided rest := by
  simp [Undivided]

theorem undivided_numeric {text : List Char} (numeric : Numeric text) : Undivided text :=
  undivided_iff.mpr fun c member => ⟨numeric_ne (numeric c member) rfl, numeric_ne (numeric c member) rfl⟩

theorem undivided_count (n : Nat) : Undivided (toString n).toList := by
  rw [Nat.toString_eq_repr, Nat.toList_repr]
  exact undivided_numeric (numeric_digitsOf n)

theorem undivided_time {text : List Char} {hundredths : Nat} (time : IsTime text hundredths) : Undivided text := by
  obtain ⟨whole, minutes_pair, -, seconds_pair, -, rest_pair⟩ := time
  have digits {digits : List Char} (all : ∀ c ∈ digits, isDigit c = true) : Undivided digits :=
    undivided_numeric (numeric_of_digits all)
  simp [digits whole.all, digits minutes_pair.all, digits seconds_pair.all, digits rest_pair.all]

/-- A colour as a style has it, and as a track has it: opaque, its channels in reverse order, in upper case. -/
inductive Reversed : List Char → List Char → Prop where
  | mk {r r' g g' b b' : Char} (hexadecimal : ∀ c ∈ [r, r', g, g', b, b'], isHexDigit c = true) :
      Reversed ['#', r, r', g, g', b, b'] ("&H00".toList ++ [b, b', g, g', r, r'].map Char.toUpper)

theorem trackColor_reversed {text color : String} (written : trackColor? text = some color) :
    Reversed text.toList color.toList := by
  unfold trackColor? at written
  split at written
  next r r' g g' b b' same =>
    split at written
    next hexadecimal =>
      rw [same, ← Option.some.inj written, String.toList_ofList]
      exact .mk (List.all_eq_true.mp hexadecimal)
    next => cases written
  next => cases written

private theorem undivided_reversed {text field : List Char} (reversed : Reversed text field) : Undivided field := by
  have upper : Undivided (RequestViolations.hexDigits.map Char.toUpper) := rfl
  have each (c : Char) (digit : isHexDigit c = true) : c.toUpper ≠ ',' ∧ c.toUpper ≠ '\n' :=
    undivided_iff.mp upper _ (List.mem_map_of_mem ((RequestViolations.isHexDigit_iff c).mp digit))
  obtain ⟨hexadecimal⟩ := reversed
  simp only [List.forall_mem_cons] at hexadecimal
  obtain ⟨red, red', green, green', blue, blue', -⟩ := hexadecimal
  simp only [undivided_append, List.map_cons, undivided_cons]
  exact ⟨rfl, each _ blue, each _ blue', each _ green, each _ green', each _ red, each _ red', rfl⟩

private theorem undivided_color (fallback color : String) : Undivided (colorOr fallback color).toList := by
  unfold colorOr
  cases chosen : (trackColor? color).or (trackColor? fallback) with
  | none => rfl
  | some field =>
    obtain own | ⟨-, other⟩ := Option.or_eq_some_iff.mp chosen
    · exact undivided_reversed (trackColor_reversed own)
    · exact undivided_reversed (trackColor_reversed other)

end Undivided

section Lines

def feeds (text : List Char) : Nat :=
  text.countP (· = '\n')

@[simp] theorem feeds_append (first second : List Char) : feeds (first ++ second) = feeds first + feeds second :=
  List.countP_append

theorem feeds_undivided {text : List Char} (undivided : Undivided text) : feeds text = 0 :=
  List.countP_eq_zero.mpr fun c member feed => (undivided_iff.mp undivided c member).2 (of_decide_eq_true feed)

private theorem pieces_feedless {line : List Char} (feedless : feeds line = 0) : Text.pieces (· = '\n') line = [line] :=
  Text.pieces_whole _ fun c member => Bool.eq_false_iff.mpr (List.countP_eq_zero.mp feedless c member)

theorem feeds_fields (fields : List (List Char)) : feeds ([','].intercalate fields) = (fields.map feeds).sum := by
  induction fields with
  | nil => rfl
  | cons field rest ih =>
    cases rest with
    | nil => simp
    | cons next others =>
      rw [List.intercalate_cons_cons, List.map_cons, List.sum_cons, ← ih, feeds_append, feeds_append]
      rfl

theorem sum_feeds {fields : List (List Char)} (undivided : ∀ field ∈ fields, Undivided field) :
    (fields.map feeds).sum = 0 := by
  rw [List.sum_eq_zero_iff]
  simp only [List.forall_mem_map]
  exact fun field member => feeds_undivided (undivided field member)

/-- Lines without line feeds are the pieces that they are cut into. -/
theorem pieces_lines {lines : List String} (feedless : ∀ line ∈ lines, feeds line.toList = 0) :
    lines.flatMap (fun line => Text.pieces (· = '\n') line.toList) = lines.map String.toList := by
  rw [List.map_eq_flatMap]
  exact List.flatMap_congr fun line member => pieces_feedless (feedless line member)

/-- The lines above the one of the style. -/
def opening (width height : UInt32) : List String :=
  (lines [] none width height).take 11

def styleLine (style : Option Style) (height : UInt32) : String :=
  "Style: " ++ ",".intercalate (styleValues (style.getD {}) height)

/-- The lines between the one of the style and the events. -/
def heading : List String :=
  ["", "[Events]", "Format: " ++ ", ".intercalate eventFields]

theorem heading_line : ∀ line ∈ heading, feeds line.toList = 0 ∧ ¬"Style: ".toList <+: line.toList := by
  simp only [heading, List.forall_mem_cons, String.toList_append, String.toList_intercalate]
  refine ⟨?_, ?_, ?_, nofun⟩ <;> decide +kernel

theorem lines_split (cues : List Cue) (style : Option Style) (width height : UInt32) : lines cues style width height =
    opening width height ++ styleLine style height :: heading ++ cues.map eventLine := by
  rfl

/-- No line of the opening is divided, and none is taken for a style or for the heading of the events. -/
theorem opening_line (width height : UInt32) : ∀ line ∈ opening width height,
    feeds line.toList = 0 ∧ ¬"Style: ".toList <+: line.toList ∧ line.toList ≠ "[Events]".toList := by
  have resolution (axis : Char) (n : Nat) (feedless : axis ≠ '\n') :
      feeds ("PlayRes".toList ++ axis :: ": ".toList ++ (toString n).toList) = 0 ∧
        ¬"Style: ".toList <+: "PlayRes".toList ++ axis :: ": ".toList ++ (toString n).toList ∧
        "PlayRes".toList ++ axis :: ": ".toList ++ (toString n).toList ≠ "[Events]".toList := by
    refine ⟨?_, by simp, by simp⟩
    have number := feeds_undivided (undivided_count n)
    have name : feeds ("PlayRes".toList ++ axis :: ": ".toList) = 0 := by simp [feeds, feedless]
    rw [feeds_append, number, name]
  simp only [opening, lines, List.cons_append, List.take_succ_cons, List.take_zero, List.forall_mem_cons,
    String.toList_append, String.toList_intercalate]
  refine ⟨?_, ?_, ?_, ?_, ?_, resolution 'X' _ (by decide), resolution 'Y' _ (by decide), ?_, ?_, ?_, ?_, nofun⟩ <;>
    decide +kernel

/-- Of the values of a style only the font may divide the line. -/
theorem styleValues_undivided (style : Style) (height : UInt32) : ∃ others, styleValues style height =
    "Default" :: style.font :: others ∧ others.length = 21 ∧ ∀ value ∈ others, Undivided value.toList := by
  refine ⟨_, rfl, rfl, ?_⟩
  simp only [List.forall_mem_cons, String.toList_ofList]
  exact ⟨undivided_numeric (numeric_plain _), undivided_color _ _, rfl, undivided_color _ _, rfl, rfl, rfl, rfl, rfl, rfl,
    rfl, rfl, rfl, rfl, undivided_numeric (numeric_plain _), rfl, undivided_count _, undivided_count _, undivided_count _,
    undivided_count _, rfl, nofun⟩

theorem styleLine_text (style : Option Style) (height : UInt32) : (styleLine style height).toList =
    "Style: ".toList ++ [','].intercalate ((styleValues (style.getD {}) height).map String.toList) := by
  rw [styleLine, String.toList_append, String.toList_intercalate]
  rfl

theorem feeds_styleLine (style : Option Style) (height : UInt32) :
    feeds (styleLine style height).toList = feeds (style.getD {}).font.toList := by
  obtain ⟨others, same, -, undivided⟩ := styleValues_undivided (style.getD {}) height
  have none := sum_feeds (List.forall_mem_map.mpr undivided)
  have name : feeds "Style: ".toList = 0 := rfl
  have first : feeds "Default".toList = 0 := rfl
  rw [styleLine_text, feeds_append, feeds_fields, same]
  simp only [List.map_cons, List.sum_cons, none, name, first, Nat.zero_add, Nat.add_zero]

end Lines

end Montage.Proofs.SubtitleLines
