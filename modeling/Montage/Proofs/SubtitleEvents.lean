import Montage.Proofs.SubtitleLines

/-! The events of a subtitle track. Each cue is one line below the heading of the events, whatever its text and times are:
its line ends are marked and not kept, its times are written anew, and its commas come behind the last that is counted. -/

namespace Montage.Proofs.SubtitleEvents
open Subtitle SubtitleLines TrackTimes

/-- A text, and the text with a mark in place of each line end: two characters that end a line together have one mark. -/
inductive Broken : List Char → List Char → Prop where
  | nil : Broken [] []
  | pair {rest marked : List Char} (later : Broken rest marked) :
      Broken ('\r' :: '\n' :: rest) ('\\' :: 'N' :: marked)
  | feed {rest marked : List Char} (later : Broken rest marked) : Broken ('\n' :: rest) ('\\' :: 'N' :: marked)
  | carriage {rest marked : List Char} (alone : rest.head? ≠ some '\n') (later : Broken rest marked) :
      Broken ('\r' :: rest) ('\\' :: 'N' :: marked)
  | other {c : Char} {rest marked : List Char} (no_feed : c ≠ '\n') (no_return : c ≠ '\r') (later : Broken rest marked) :
      Broken (c :: rest) (c :: marked)

/-- The texts before the first commas of a text, as many as are asked for, and the text behind the last of these. -/
def leadingFields : Nat → List Char → Option (List (List Char) × List Char)
  | 0, text => some ([], text)
  | count + 1, text => do
    let (field, rest) ← Text.cutOnce (· = ',') text
    let (fields, last) ← leadingFields count rest
    some (field :: fields, last)

/-- The fields of an event before its text: its layer, the times of the cue, the one style, no name, no margins of its own
and no effect. -/
def eventFront (cue : Cue) : List (List Char) :=
  ["0", trackTime (seconds cue.start), trackTime (seconds cue.stop), "Default", "", "0", "0", "0", ""].map String.toList

/-- A line that is the event of a cue, with the text of the cue behind the ninth comma. -/
inductive IsEvent : List Char → Cue → Prop where
  | mk {cue : Cue} {body text : List Char}
      (fields : leadingFields 9 body = some (eventFront cue, text)) (broken : Broken cue.text.toList text) :
      IsEvent ("Dialogue: ".toList ++ body) cue

section Breaks

private theorem onOneLine_broken (text : List Char) : Broken text (onOneLine text) := by
  induction text using onOneLine.induct with
  | case1 => exact .nil
  | case2 rest later => exact .pair later
  | case3 c rest alone ends later =>
    rw [onOneLine.eq_3 c rest alone, if_pos ends]
    obtain rfl | rfl := ends
    · exact .feed later
    · refine .carriage (fun next => ?_) later
      obtain ⟨behind, same⟩ := List.head?_eq_some_iff.mp next
      exact alone behind rfl same
  | case4 c rest alone kept later =>
    obtain ⟨no_feed, no_return⟩ := not_or.mp kept
    rw [onOneLine.eq_3 c rest alone, if_neg kept]
    exact .other no_feed no_return later

theorem broken_unique {text marked : List Char} (broken : Broken text marked) : marked = onOneLine text := by
  induction broken with
  | nil => rfl
  | pair _ ih => rw [onOneLine, ih]
  | @feed rest _ _ ih => rw [onOneLine.eq_3 _ _ (by simp), if_pos (.inl rfl), ih]
  | @carriage rest _ alone _ ih =>
    have apart : ∀ behind, '\r' = '\r' → rest = '\n' :: behind → False := fun _ _ same => alone (same ▸ rfl)
    rw [onOneLine.eq_3 _ _ apart, if_pos (.inr rfl), ih]
  | other no_feed no_return _ ih =>
    have kept := not_or.mpr ⟨no_feed, no_return⟩
    rw [onOneLine.eq_3 _ _ fun _ same _ => no_return same, if_neg kept, ih]

private theorem broken_feedless {text marked : List Char} (broken : Broken text marked) : feeds marked = 0 := by
  induction broken with
  | nil => rfl
  | pair _ ih => exact ih
  | feed _ ih => exact ih
  | carriage _ _ ih => exact ih
  | other no_feed _ _ ih => simpa [feeds, no_feed] using ih

end Breaks

section Fields

private theorem leadingFields_intercalate {fields : List (List Char)} (undivided : ∀ field ∈ fields, Undivided field)
    (last : List Char) : leadingFields fields.length ([','].intercalate (fields ++ [last])) = some (fields, last) := by
  induction fields with
  | nil => simp [leadingFields]
  | cons field rest ih =>
    have later := ih fun other member => undivided other (List.mem_cons_of_mem _ member)
    have split : [','].intercalate (field :: rest ++ [last]) = field ++ ',' :: [','].intercalate (rest ++ [last]) := by
      cases rest with
      | nil => simp [List.intercalate_cons_cons]
      | cons next others => simp [List.intercalate_cons_cons]
    have cut : Text.cutOnce (· = ',') (field ++ ',' :: [','].intercalate (rest ++ [last])) =
        some (field, [','].intercalate (rest ++ [last])) :=
      Text.cutOnce_append (fun c member =>
        decide_eq_false (undivided_iff.mp (undivided field List.mem_cons_self) c member).1) rfl
    rw [split, List.length_cons, leadingFields, cut]
    simp only [Option.bind_eq_bind, Option.bind_some, later]

private theorem eventFront_undivided (cue : Cue) : ∀ field ∈ eventFront cue, Undivided field := by
  simp only [eventFront, List.map_cons, List.forall_mem_cons]
  exact ⟨rfl, undivided_time (trackTime_time _), undivided_time (trackTime_time _), rfl, rfl, rfl, rfl, rfl, rfl, nofun⟩

theorem eventLine_text (cue : Cue) : (eventLine cue).toList =
    "Dialogue: ".toList ++ [','].intercalate (eventFront cue ++ [onOneLine cue.text.toList]) := by
  rw [eventLine, String.toList_append, String.toList_intercalate]
  rw [eventValues, eventFront]
  simp

private theorem eventLine_event (cue : Cue) : IsEvent (eventLine cue).toList cue := by
  rw [eventLine_text]
  exact .mk (leadingFields_intercalate (eventFront_undivided cue) _) (onOneLine_broken _)

theorem eventLine_feedless (cue : Cue) : feeds (eventLine cue).toList = 0 := by
  have front := sum_feeds (eventFront_undivided cue)
  have text := broken_feedless (onOneLine_broken cue.text.toList)
  have name : feeds "Dialogue: ".toList = 0 := rfl
  rw [eventLine_text, feeds_append, feeds_fields, List.map_append, List.sum_append, front, name, List.map_singleton,
    List.sum_singleton, text]

end Fields

section Lines
variable {style : Option Style} (feedless : feeds (style.getD {}).font.toList = 0) (cues : List Cue) (width height : UInt32)
include feedless

private theorem lines_feedless : ∀ line ∈ lines cues style width height, feeds line.toList = 0 := by
  rw [lines_split]
  simp only [List.forall_mem_append, List.forall_mem_cons, List.forall_mem_map]
  exact ⟨⟨fun line member => (opening_line width height line member).1, (feeds_styleLine style height).trans feedless,
    fun line member => (heading_line line member).1⟩, fun cue _ => eventLine_feedless cue⟩

theorem document_lines : Text.pieces (· = '\n') (document cues style width height).toList =
    (opening width height ++ styleLine style height :: heading ++ cues.map eventLine).map String.toList ++ [[]] := by
  rw [document_pieces, pieces_lines (lines_feedless feedless cues width height), lines_split]

end Lines

/-- Below the heading of the events a track has one line for each cue, in their order, and nothing behind them but the end
of the last line, for all texts and times of the cues. -/
theorem cue_events {style : Option Style} (unbroken : ∀ given ∈ style, '\n' ∉ given.font.toList) (width height : UInt32) :
    ∃ front, "[Events]".toList ∉ front ∧ ∀ cues, ∃ events,
      Text.pieces (· = '\n') (document cues style width height).toList = front ++ "[Events]".toList ::
        "Format: Layer, Start, End, Style, Name, MarginL, MarginR, MarginV, Effect, Text".toList :: events ++ [[]] ∧
      List.Forall₂ IsEvent events cues := by
  have feedless : feeds (style.getD {}).font.toList = 0 := by
    cases style with
    | none => rfl
    | some given =>
      exact List.countP_eq_zero.mpr fun c member feed => unbroken given rfl (of_decide_eq_true feed ▸ member)
  refine ⟨(opening width height ++ [styleLine style height, ""]).map String.toList, ?_, fun cues =>
    ⟨(cues.map eventLine).map String.toList, ?_, ?_⟩⟩
  · rw [List.mem_map]
    rintro ⟨line, member, same⟩
    simp only [List.mem_append, List.mem_cons, List.not_mem_nil, or_false] at member
    obtain above | rfl | rfl := member
    · exact (opening_line width height line above).2.2 same
    · rw [styleLine_text] at same
      cases same
    · cases same
  · have format : "Format: Layer, Start, End, Style, Name, MarginL, MarginR, MarginV, Effect, Text" =
        "Format: " ++ ", ".intercalate eventFields := by decide +kernel
    rw [document_lines feedless, format]
    simp [heading]
  · rw [List.map_map, List.forall₂_map_left_iff]
    exact List.forall₂_same.mpr fun cue _ => eventLine_event cue

def hostileCue : Cue where
  start := "00:00:01,500\nDialogue: 9,"
  stop := "00:00:02,000"
  text := "one, two\r\n[Events]\rDialogue: 0,\n"

theorem hostile_cue_event : (∀ given ∈ some { font := "Arial, Helvetica" : Style }, '\n' ∉ given.font.toList) ∧
    ∃ front event, "[Events]".toList ∉ front ∧
      Text.pieces (· = '\n') (document [hostileCue] (some { font := "Arial, Helvetica" }) 1920 1080).toList =
        front ++ "[Events]".toList ::
          "Format: Layer, Start, End, Style, Name, MarginL, MarginR, MarginV, Effect, Text".toList :: [event] ++ [[]] ∧
      IsEvent event hostileCue := by
  have unbroken : ∀ given ∈ some { font := "Arial, Helvetica" : Style }, '\n' ∉ given.font.toList := by
    rintro _ ⟨rfl⟩
    decide +kernel
  obtain ⟨front, absent, all⟩ := cue_events unbroken 1920 1080
  obtain ⟨events, cut, each⟩ := all [hostileCue]
  obtain ⟨event, rest, one, none, rfl⟩ := List.forall₂_cons_right_iff.mp each
  obtain rfl := List.forall₂_nil_right_iff.mp none
  exact ⟨unbroken, front, event, absent, cut, one⟩

end Montage.Proofs.SubtitleEvents
