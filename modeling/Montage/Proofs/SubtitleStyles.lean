import Montage.Proofs.SubtitleEvents

/-! The style of a subtitle track. The values of an accepted style are put into one line without a look at the font, so that
the line has the fields that are announced exactly if the font has no comma and no line feed of its own. -/

namespace Montage.Proofs.SubtitleStyles
open Subtitle SubtitleLines SubtitleEvents

/-- The field of a line that stands where the line of the names has the given name. -/
def column (names fields : List Char) (name : String) : Option (List Char) :=
  (((Text.pieces (· = ',') names).map Text.trim).zip (Text.pieces (· = ',') fields)).lookup name.toList

/-- Fields that are those of a style, as many as there are names for. -/
structure IsStyle (style : Style) (names fields : List Char) : Prop where
  announced : (Text.pieces (· = ',') names).length = 23
  complete : (Text.pieces (· = ',') fields).length = 23
  font : column names fields "Fontname" = some style.font.toList
  primary : ∃ color, column names fields "PrimaryColour" = some color ∧ Reversed style.primaryColor.toList color
  outline : ∃ color, column names fields "OutlineColour" = some color ∧ Reversed style.outlineColor.toList color

/-- Lines of which a single one is a style, the given one, directly below the names of its fields. -/
inductive WellStyled (style : Style) : List (List Char) → Prop where
  | mk {above below : List (List Char)} {names fields : List Char}
      (single : ∀ line ∈ above ++ ("Format: ".toList ++ names) :: below, ¬"Style: ".toList <+: line)
      (styled : IsStyle style names fields) :
      WellStyled style (above ++ ("Format: ".toList ++ names) :: ("Style: ".toList ++ fields) :: below)

section Fonts

private theorem column_mem {names fields field : List Char} {name : String}
    (found : column names fields name = some field) :
    field ∈ Text.pieces (· = ',') fields := by
  obtain ⟨before, after, split, -⟩ := List.lookup_eq_some_iff.mp found
  have member := split ▸ List.mem_append_right before (List.mem_cons_self (l := after))
  exact (List.of_mem_zip member).2

private theorem font_undivided {style : Style} {text : List Char}
    (well : WellStyled style (Text.pieces (· = '\n') text)) :
    Undivided style.font.toList := by
  generalize cut : Text.pieces (· = '\n') text = lines at well
  obtain @⟨above, below, names, fields, -, styled⟩ := well
  have field := column_mem styled.font
  have line : "Style: ".toList ++ fields ∈ Text.pieces (· = '\n') text := cut ▸ by simp
  rw [undivided_iff]
  intro c member
  obtain ⟨inside, no_comma⟩ := Text.pieces_characters _ _ _ field c member
  have no_feed := Text.pieces_free _ _ _ line c (List.mem_append_right _ inside)
  exact ⟨of_decide_eq_false no_comma, of_decide_eq_false no_feed⟩

end Fonts

section Values

private theorem accepted_colors {style : Style} (accepted : style.violations = []) :
    isColor style.primaryColor = true ∧ isColor style.outlineColor = true := by
  have judged (name value : String) (kept : whenNoColor name value = []) : isColor value = true := by
    unfold whenNoColor at kept
    split at kept
    next color => exact color
    next => cases kept
  simp only [Style.violations, List.append_eq_nil_iff] at accepted
  obtain ⟨⟨⟨⟨-, primary⟩, outline⟩, -⟩, -⟩ := accepted
  exact ⟨judged _ _ primary, judged _ _ outline⟩

private theorem trackColor_color {color : String} (valid : isColor color = true) :
    (trackColor? color).isSome = true := by
  unfold isColor at valid
  split at valid
  next digits same =>
    obtain ⟨six, hexadecimal⟩ := Bool.and_eq_true_iff.mp valid
    match digits, of_decide_eq_true six with
    | [r, r', g, g', b, b'], _ => simp only [trackColor?, same, hexadecimal, if_true, Option.isSome_some]
  next => cases valid

private theorem colorOr_reversed {fallback color : String} (valid : isColor color = true) :
    Reversed color.toList (colorOr fallback color).toList := by
  obtain ⟨field, written⟩ := Option.isSome_iff_exists.mp (trackColor_color valid)
  have own : colorOr fallback color = field := by rw [colorOr, written, Option.some_or, Option.getD_some]
  rw [own]
  exact trackColor_reversed written

private theorem style_fields {style : Style} (undivided : Undivided style.font.toList) (height : UInt32) :
    Text.pieces (· = ',') ([','].intercalate ((styleValues style height).map String.toList)) =
      (styleValues style height).map String.toList := by
  obtain ⟨others, same, -, others_undivided⟩ := styleValues_undivided style height
  have every : ∀ value ∈ styleValues style height, Undivided value.toList := by
    rw [same]
    simp only [List.forall_mem_cons]
    exact ⟨rfl, undivided, others_undivided⟩
  rw [pieces_fields (by simp [same]), List.flatMap_map, List.map_eq_flatMap]
  exact List.flatMap_congr fun value member => Text.pieces_whole _ fun c inside =>
    decide_eq_false (undivided_iff.mp (every value member) c inside).1

def styleNames : List Char :=
  [',', ' '].intercalate (styleFields.map String.toList)

private theorem styleNames_fields :
    (Text.pieces (· = ',') styleNames).map Text.trim = styleFields.map String.toList := by
  decide +kernel

private theorem styleValues_style {style : Style} (accepted : style.violations = [])
    (undivided : Undivided style.font.toList)
    (height : UInt32) :
    IsStyle style styleNames ([','].intercalate ((styleValues style height).map String.toList)) := by
  obtain ⟨primary, outline⟩ := accepted_colors accepted
  have fields := style_fields undivided height
  have announced : (Text.pieces (· = ',') styleNames).length = 23 := by
    rw [← List.length_map Text.trim, styleNames_fields]
    rfl
  have found (name : String) : column styleNames ([','].intercalate ((styleValues style height).map String.toList)) name =
      ((styleFields.map String.toList).zip ((styleValues style height).map String.toList)).lookup name.toList := by
    rw [column, styleNames_fields, fields]
  refine ⟨announced, by rw [fields]; rfl, ?_, ?_, ?_⟩
  · rw [found]
    rfl
  · exact ⟨_, (found _).trans rfl, colorOr_reversed primary⟩
  · exact ⟨_, (found _).trans rfl, colorOr_reversed outline⟩

end Values

section Document

private theorem document_styled {style : Style} (accepted : style.violations = [])
    (undivided : Undivided style.font.toList)
    (cues : List Cue) (width height : UInt32) :
    WellStyled style (Text.pieces (· = '\n') (document cues (some style) width height).toList) := by
  have feedless : feeds ((some style).getD {}).font.toList = 0 := feeds_undivided undivided
  obtain ⟨above, names⟩ : ∃ above, opening width height = above ++ ["Format: " ++ ", ".intercalate styleFields] :=
    ⟨(opening width height).take 10, rfl⟩
  have format : ("Format: " ++ ", ".intercalate styleFields).toList = "Format: ".toList ++ styleNames := by
    rw [String.toList_append, String.toList_intercalate]
    rfl
  have split : Text.pieces (· = '\n') (document cues (some style) width height).toList =
      above.map String.toList ++ ("Format: ".toList ++ styleNames) ::
        ("Style: ".toList ++ [','].intercalate ((styleValues style height).map String.toList)) ::
          ((heading ++ cues.map eventLine).map String.toList ++ [[]]) := by
    rw [document_lines feedless, names]
    simp only [List.map_append, List.map_cons, styleLine_text, format, Option.getD_some]
    simp
  rw [split]
  refine .mk ?_ (styleValues_style accepted undivided height)
  have openings := fun line member => (opening_line width height line member).2.1
  rw [names] at openings
  simp only [List.map_append, List.forall_mem_append, List.forall_mem_cons, List.forall_mem_map, format] at openings ⊢
  refine ⟨openings.1, openings.2.1, ⟨fun line member => (heading_line line member).2, fun cue _ => ?_⟩, by simp,
    List.forall_mem_nil _⟩
  rw [eventLine_text]
  simp

theorem document_length (cues : List Cue) (style : Style) (width height : UInt32) :
    (Text.pieces (· = '\n') (document cues (some style) width height).toList).length =
      cues.length + 16 + feeds style.font.toList := by
  have openings : ∀ line ∈ opening width height, feeds line.toList = 0 :=
    fun line member => (opening_line width height line member).1
  have headings : ∀ line ∈ heading, feeds line.toList = 0 := fun line member => (heading_line line member).1
  have events : ∀ line ∈ cues.map eventLine, feeds line.toList = 0 :=
    List.forall_mem_map.mpr fun cue _ => eventLine_feedless cue
  have styled : (Text.pieces (· = '\n') (styleLine (some style) height).toList).length = feeds style.font.toList + 1 :=
    (Text.pieces_length _ _).trans (congrArg (· + 1) (feeds_styleLine (some style) height))
  have counts : (opening width height).length = 11 ∧ heading.length = 3 := ⟨rfl, rfl⟩
  rw [document_pieces, lines_split, List.flatMap_append, List.flatMap_append, List.flatMap_cons, pieces_lines openings,
    pieces_lines headings, pieces_lines events]
  simp only [List.length_append, List.length_map, List.length_singleton, styled, counts]
  omega

end Document

/-- The line of an accepted style is well formed if and only if its font has neither a comma nor a line feed. The number of
lines is the same for all styles whose fonts have no line feed. -/
theorem style_section {style : Style} (accepted : style.violations = []) (cues : List Cue) (width height : UInt32) :
    (WellStyled style (Text.pieces (· = '\n') (document cues (some style) width height).toList) ↔
      ',' ∉ style.font.toList ∧ '\n' ∉ style.font.toList) ∧
    (Text.pieces (· = '\n') (document cues (some style) width height).toList).length =
      cues.length + 16 + style.font.toList.count '\n' := by
  have undivided : Undivided style.font.toList ↔ ',' ∉ style.font.toList ∧ '\n' ∉ style.font.toList := by
    rw [undivided_iff]
    exact ⟨fun each => ⟨fun comma => (each _ comma).1 rfl, fun feed => (each _ feed).2 rfl⟩,
      fun ⟨no_comma, no_feed⟩ c member => ⟨fun same => no_comma (same ▸ member), fun same => no_feed (same ▸ member)⟩⟩
  rw [← undivided]
  refine ⟨⟨font_undivided, fun plain => document_styled accepted plain cues width height⟩, ?_⟩
  exact document_length cues style width height

theorem plain_font_styled : ({ font := "Roboto" } : Style).violations = [] ∧
    WellStyled { font := "Roboto" } (Text.pieces (· = '\n')
      (document [{ text := "one\nStyle: two" }] (some { font := "Roboto" }) 1920 1080).toList) := by
  have accepted : ({ font := "Roboto" } : Style).violations = [] := by decide +kernel
  exact ⟨accepted, (style_section accepted _ 1920 1080).1.mpr (by decide +kernel)⟩

/-- A list of fonts is accepted and gives its line more fields than there are names for. A font with a line feed is accepted
and gives the track a line more. -/
theorem font_divides : ({ font := "Arial, Helvetica" } : Style).violations = [] ∧
    ¬WellStyled { font := "Arial, Helvetica" }
      (Text.pieces (· = '\n') (document [] (some { font := "Arial, Helvetica" }) 1920 1080).toList) ∧
    ({ font := "Arial\nStyle: " } : Style).violations = [] ∧
    (Text.pieces (· = '\n') (document [] (some { font := "Arial\nStyle: " }) 1920 1080).toList).length ≠
      (Text.pieces (· = '\n') (document [] (some {}) 1920 1080).toList).length := by
  refine ⟨by decide +kernel, fun well => ?_, by decide +kernel, ?_⟩
  · exact absurd (font_undivided well) (by unfold Undivided; decide +kernel)
  · rw [document_length, document_length]
    decide +kernel

end Montage.Proofs.SubtitleStyles
