import Mathlib.Logic.Relation
import Montage.Proofs.RecordMembers
import Montage.Request.Format

/-! What is read of a request depends only on what its members mean: not on their order, not on which of their names
are used, not on members that nothing is declared of, and not on whether a default is written out. No field may be
given twice. -/

namespace Montage.Proofs.RequestMeaning
open Json Record RecordMembers JsonPrinted JsonTokens

/-- Whether a value is a numeral of a double. -/
def IsNumber (x : Float) (json : Json) : Prop :=
  ∃ numeral, json = .number numeral ∧ numeral.double? = some x

def segmentSlots : List Slot :=
  [{ name := "sourceStartTime", aliases := ["sourceStart"] },
    { name := "sourceEndTime", aliases := ["sourceEnd"] },
    { name := "playbackRate", usual := IsNumber 1 }]

def clipSlots : List Slot :=
  [{ name := "id" },
    { name := "startTime", usual := IsNumber 0 },
    { name := "volumeDb", usual := (· = .null) },
    { name := "track", usual := (· = .null) }]

def cueSlots : List Slot :=
  [{ name := "startTime", usual := (· = .ofText "00:00:00,000") },
    { name := "endTime", usual := (· = .ofText "00:00:00,000") },
    { name := "text", usual := (· = .ofText "") }]

def styleSlots : List Slot :=
  [{ name := "fontFamily", usual := (· = .ofText "Arial") },
    { name := "fontSize", usual := IsNumber 48 },
    { name := "primaryColor", usual := (· = .ofText "#FFFFFF") },
    { name := "outlineColor", usual := (· = .ofText "#000000") },
    { name := "outlineWidth", usual := IsNumber 2.5 },
    { name := "verticalMargin", usual := IsNumber 8 },
    { name := "horizontalAlign", usual := (· = .ofText "center") }]

def regionSlots : List Slot :=
  [{ name := "x", usual := IsNumber 0 },
    { name := "y", usual := IsNumber 0 },
    { name := "width", usual := IsNumber 0 },
    { name := "height", usual := IsNumber 0 },
    { name := "enabled", usual := (· = .boolean false) }]

def listSlot (name : String) (aliases : List String) (slots : List Slot) : Slot where
  name := name
  aliases := aliases
  usual := (· = .list [] true)
  restated := ListRestated (ObjectRestated slots)
  repeats := ListRepeats (ObjectRepeats slots)

def partSlot (name : String) (aliases : List String) (slots : List Slot) : Slot where
  name := name
  aliases := aliases
  usual := (· = .null)
  restated := ObjectRestated slots
  repeats := ObjectRepeats slots

def requestSlots : List Slot :=
  [{ name := "video_file_id", aliases := ["videoFileId"] },
    listSlot "video_segments" ["videoSegments"] segmentSlots,
    listSlot "subtitles" [] cueSlots,
    listSlot "audio_files" ["audioFiles"] clipSlots,
    partSlot "subtitle_style" ["subtitleStyle"] styleSlots,
    partSlot "hardsub_cover_box" ["hardsubCoverBox", "blurRegion"] regionSlots,
    { name := "master_volume_db", aliases := ["masterVolumeDb"], usual := IsNumber 0 },
    { name := "video_frame_url", aliases := ["videoFrameUrl"], usual := (· = .null) },
    { name := "output_filename", aliases := ["outputFilename"], usual := (· = .null) }]

section Fields
variable {name : String} {aliases : List String} {reader : Reader α}

theorem settles_required (reader : Reader α) :
    Settles (Record.required name aliases reader) [{ name := name, aliases := aliases }] :=
  settles_field { name := name, aliases := aliases } (regards_plain reader) nofun

/-- A field without records of its own, whose default is written in one way. -/
theorem settles_defaulting {json : Json} {value : α} (reads : reader json = .ok value) :
    Settles (Record.defaulting name aliases reader value)
      [{ name := name, aliases := aliases, usual := (· = json) }] := by
  refine settles_field { name := name, aliases := aliases, usual := (· = json) } (regards_plain reader) ?_
  rintro _ _ rfl read
  exact reads.symm.trans read

theorem settles_number (x : Float) : Settles (Record.defaulting name aliases Reader.double x)
    [{ name := name, aliases := aliases, usual := IsNumber x }] := by
  refine settles_field { name := name, aliases := aliases, usual := IsNumber x } (regards_plain _) ?_
  rintro _ value ⟨numeral, rfl, double⟩ read
  simp only [Reader.double, double] at read
  exact read

theorem settles_list {slots : List Slot} (regards : Regards reader (ObjectRestated slots) (ObjectRepeats slots)) :
    Settles (Record.defaulting name aliases (Reader.list reader) []) [listSlot name aliases slots] := by
  refine settles_field (listSlot name aliases slots) (regards_list regards) ?_
  rintro _ _ rfl read
  exact read

private theorem settles_part {slots : List Slot}
    (regards : Regards reader (ObjectRestated slots) (ObjectRepeats slots)) :
    Settles (Record.defaulting name aliases (Reader.optional reader) none) [partSlot name aliases slots] := by
  refine settles_field (partSlot name aliases slots) (regards_optional regards) ?_
  rintro _ _ rfl read
  exact read

end Fields

private theorem segment_settles : Settles Segment.record segmentSlots :=
  settles_seq (settles_seq (settles_map (settles_required _)) (settles_required _)) (settles_number 1)

private theorem clip_settles : Settles Clip.record clipSlots := by
  refine settles_seq (settles_seq (settles_seq (settles_map (settles_required _)) (settles_number 0))
    (settles_defaulting ?_)) (settles_defaulting ?_) <;> rfl

private theorem cue_settles : Settles Cue.record cueSlots := by
  refine settles_seq (settles_seq (settles_map (settles_defaulting ?_)) (settles_defaulting ?_))
    (settles_defaulting ?_) <;> rfl

private theorem region_settles : Settles Region.record regionSlots := by
  refine settles_seq (settles_seq (settles_seq (settles_seq (settles_map (settles_number 0)) (settles_number 0))
    (settles_number 0)) (settles_number 0)) (settles_defaulting ?_)
  rfl

private theorem style_settles : Settles Style.record styleSlots := by
  refine settles_seq (settles_seq (settles_seq (settles_seq (settles_seq (settles_seq (settles_map (settles_defaulting ?_))
    (settles_number 48)) (settles_defaulting ?_)) (settles_defaulting ?_)) (settles_number 2.5)) (settles_number 8))
    (settles_defaulting ?_) <;> rfl

private theorem request_settles : Settles Request.record requestSlots := by
  refine settles_seq (settles_seq (settles_seq (settles_seq (settles_seq (settles_seq (settles_seq (settles_seq
    (settles_map (settles_required _))
    (settles_list (regards_record segment_settles ?_)))
    (settles_list (regards_record cue_settles ?_)))
    (settles_list (regards_record clip_settles ?_)))
    (settles_part (regards_record style_settles ?_)))
    (settles_part (regards_record region_settles ?_)))
    (settles_number 0)) (settles_defaulting ?_)) (settles_defaulting ?_)
  case refine_6 => rfl
  case refine_7 => rfl
  all_goals decide

/-- A value is read from a text, and nothing of the text is left over. -/
def Spells (source : String) (json : Json) : Prop :=
  ofSymbols (Text.decoded source) = (json, true)

theorem decodeText_ok_iff {reader : Reader α} {source : String} {value : α} :
    decodeText reader source = .ok value ↔ ∃ json, Spells source json ∧ reader json = .ok value := by
  unfold decodeText Spells
  generalize ofSymbols (Text.decoded source) = symbols
  obtain ⟨json, ended⟩ := symbols
  simp only [Prod.mk.injEq]
  cases found : reader json <;> cases ended <;> simp [found]

private theorem request_regards : Regards Request.read (ObjectRestated requestSlots) (ObjectRepeats requestSlots) :=
  regards_record request_settles (by decide)

/-- A request is read from every text of an object that is the first one put in another way, however often, and no
request is read from a text that gives a field twice. -/
theorem read_by_meaning :
    (∀ {source other : String} {json again : Json} {request : Request},
      decodeText Request.read source = .ok request → Spells source json → Spells other again →
      Relation.ReflTransGen (ObjectRestated requestSlots) json again → decodeText Request.read other = .ok request) ∧
    ∀ {source : String} {json : Json} {ended : Bool}, ofSymbols (Text.decoded source) = (json, ended) →
      ObjectRepeats requestSlots json → ∃ fault, decodeText Request.read source = .error fault := by
  constructor
  · intro source other json again request read spelled others restated
    obtain ⟨_, same, read⟩ := decodeText_ok_iff.mp read
    obtain rfl : _ = json := congrArg Prod.fst (same.symm.trans spelled)
    refine decodeText_ok_iff.mpr ⟨again, others, ?_⟩
    clear others
    induction restated with
    | refl => exact read
    | tail _ changed ih => exact request_regards.restated _ _ request changed ih
  · intro source json ended spelled repeats
    cases read : decodeText Request.read source with
    | error fault => exact ⟨fault, rfl⟩
    | ok request =>
      obtain ⟨_, same, read⟩ := decodeText_ok_iff.mp read
      obtain rfl : _ = json := congrArg Prod.fst (same.symm.trans spelled)
      exact absurd read (request_regards.repeats _ request repeats)

def ratedSegment : Json :=
  .ofMembers [("sourceStart", .ofNat 1), ("sourceEnd", .ofNat 2), ("playbackRate", .ofNat 1)]

def plainSegment : Json :=
  .ofMembers [("sourceStart", .ofNat 1), ("sourceEnd", .ofNat 2)]

def ratedObject : Json :=
  .ofMembers [("videoFileId", .ofText "film"), ("video_segments", .list [ratedSegment] true)]

/-- The same request in another order, under another name of its film, with a note and without the rate. -/
def notedObject : Json :=
  .ofMembers [("note", .boolean true), ("video_segments", .list [plainSegment] true), ("video_file_id", .ofText "film")]

/-- A request that names its film twice. -/
def doubledObject : Json :=
  .ofMembers [("video_file_id", .ofText "film"), ("videoFileId", .ofText "film")]

private theorem rated_restated : Relation.ReflTransGen (ObjectRestated requestSlots) ratedObject notedObject := by
  let film : Option String × Json := (some "video_file_id", .ofText "film")
  let segments : Option String × Json := (some "video_segments", .list [plainSegment] true)
  have unrated : ObjectRestated segmentSlots ratedSegment plainSegment :=
    .members (@Restated.omitted _ [(some "sourceStart", .ofNat 1), (some "sourceEnd", .ofNat 2)] [] _ "playbackRate"
      (.ofNat 1) (.tail _ (.tail _ (.head _))) (.head _) ⟨_, rfl, by decide⟩)
  have first : Restated requestSlots
      [(some "videoFileId", .ofText "film"), (some "video_segments", .list [ratedSegment] true)]
      [(some "videoFileId", .ofText "film"), segments] :=
    @Restated.within _ [_] [] _ _ _ _ (.tail _ (.head _)) (.head _) (@ListRestated.item _ [] [] _ _ true unrated)
  have second : Restated requestSlots [(some "videoFileId", .ofText "film"), segments] [film, segments] :=
    @Restated.respelled _ [] [segments] _ "videoFileId" "video_file_id" _ (.head _) (.tail _ (.head _)) (.head _)
  have third : Restated requestSlots [film, segments] [(some "note", .boolean true), film, segments] :=
    @Restated.added _ [] [film, segments] "note" (.boolean true)
      (by simp [requestSlots, Slot.spellings, listSlot, partSlot]) rfl
  have fourth : Restated requestSlots [(some "note", .boolean true), film, segments]
      [(some "note", .boolean true), segments, film] :=
    .reordered (.cons _ (.swap _ _ _))
  exact .tail (.tail (.tail (.single (.members first)) (.members second)) (.members third)) (.members fourth)

theorem rated_by_meaning :
    ∃ request, decodeText Request.read ratedObject.print = .ok request ∧ Spells ratedObject.print ratedObject ∧
      Spells notedObject.print notedObject ∧ decodeText Request.read notedObject.print = .ok request ∧
      ofSymbols (Text.decoded doubledObject.print) = (doubledObject, true) ∧ ObjectRepeats requestSlots doubledObject ∧
      ∃ fault, decodeText Request.read doubledObject.print = .error fault := by
  have rated : Spells ratedObject.print ratedObject := ofSymbols_print ratedObject (by decide)
  have noted : Spells notedObject.print notedObject := ofSymbols_print notedObject (by decide)
  have doubled : ofSymbols (Text.decoded doubledObject.print) = (doubledObject, true) :=
    ofSymbols_print doubledObject (by decide)
  have read : decodeText Request.read ratedObject.print = .ok { source := "film", segments := [⟨1, 2, 1⟩] } :=
    decodeText_ok_iff.mpr ⟨ratedObject, rated, by decide +kernel⟩
  have repeats : ObjectRepeats requestSlots doubledObject :=
    .members (@Repeats.twice _ [] [] [] _ "video_file_id" "videoFileId" _ _ (.head _) (.head _) (.tail _ (.head _)))
  exact ⟨_, read, rated, noted, read_by_meaning.1 read rated noted rated_restated, doubled, repeats,
    read_by_meaning.2 doubled repeats⟩

end Montage.Proofs.RequestMeaning
