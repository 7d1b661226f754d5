import Montage.Request.Basic
import Montage.Subtitle.Color
import Montage.Json.Basic

/-! Which rules a request breaks. A rule speaks of one field or of a record as a whole; a record as
a whole is only judged when each of its fields is fine. -/

namespace Montage

/-- The range of a number: a least value, a value it has to exceed, and a greatest value, each if
there is one. -/
structure Bounds where
  least : Option Float := none
  above : Option Float := none
  most : Option Float := none
  deriving DecidableEq

/-- A number breaks its bounds if it is below the least value, not above the one to exceed, or above
the greatest. What is no number only fails to exceed. -/
def Bounds.broken (bounds : Bounds) (value : Float) : Bool :=
  bounds.least.any (fun least => value < least) ||
  bounds.above.any (fun above => !(above < value)) ||
  bounds.most.any (fun most => most < value)

inductive Problem where
  | empty
  | outOfBounds (bounds : Bounds) (value : Float)
  | noColor (value : String)
  | notFinite (value : Float)
  /-- Some number of the record is not finite. -/
  | hasNonFinite
  | startNotBeforeEnd
  | outsideCanvas
  deriving DecidableEq

/-- Where it is wrong, from the outside in: fields, items, and a record as a whole. -/
inductive Place where
  | field (name : String)
  | item (index : Nat)
  | whole
  deriving DecidableEq

structure Violation where
  place : List Place
  problem : Problem
  deriving DecidableEq

namespace Violation

def ofField (name : String) (problem : Problem) : Violation :=
  ⟨[.field name], problem⟩

def under (outer : List Place) (violation : Violation) : Violation :=
  { violation with place := outer ++ violation.place }

/-- The place in words: fields with points between them, indices in brackets. -/
def describePlace : List Place → String
  | [] => ""
  | place :: rest => first place ++ continued rest
where
  first : Place → String
    | .field name => name
    | .item index => "[" ++ toString index ++ "]"
    | .whole => "__all__"
  continued : List Place → String
    | [] => ""
    | .item index :: rest => "[" ++ toString index ++ "]" ++ continued rest
    | place :: rest => "." ++ first place ++ continued rest

end Violation

namespace Problem

def code : Problem → String
  | .empty => "length"
  | .outOfBounds .. => "range"
  | .noColor _ => "hex_color"
  | .notFinite _ | .hasNonFinite => "non_finite"
  | .startNotBeforeEnd => "start_not_before_end"
  | .outsideCanvas => "outside_canvas"

/-- What the rule allows, and the value that breaks it. -/
def parameters : Problem → List (String × Json)
  | .empty => [("min", .ofNat 1), ("value", .ofText "")]
  | .outOfBounds bounds value =>
    let bound (name : String) (limit : Option Float) : List (String × Json) :=
      limit.toList.map fun limit => (name, .ofDouble limit)
    bound "min" bounds.least ++ bound "exclusive_min" bounds.above ++ bound "max" bounds.most ++
      [("value", .ofDouble value)]
  | .noColor value => [("value", .ofText value)]
  | .notFinite value => [("value", .ofDouble value)]
  | .hasNonFinite | .startNotBeforeEnd | .outsideCanvas => []

end Problem

/-- The violation of a text that must not be empty. -/
def whenEmpty (name value : String) : List Violation :=
  if value.isEmpty then [.ofField name .empty] else []

def whenBroken (name : String) (bounds : Bounds) (value : Float) : List Violation :=
  if bounds.broken value then [.ofField name (.outOfBounds bounds value)] else []

/-- The violation of a text that has to be a colour. -/
def whenNoColor (name value : String) : List Violation :=
  if Subtitle.isColor value then [] else [.ofField name (.noColor value)]

/-- The violations of the fields, or else that of the record as a whole. -/
def fieldsThenWhole (fields : List Violation) (whole : Option Problem) : List Violation :=
  if fields.isEmpty then whole.toList.map fun problem => ⟨[.whole], problem⟩ else fields

/-- A percentage of the canvas. -/
def Bounds.percent : Bounds := { least := some 0, most := some 100 }

def Bounds.fromZero : Bounds := { least := some 0 }

def Bounds.aboveZero : Bounds := { above := some 0 }

/-- A segment starts at or after zero, before it ends, and plays forward. -/
def Segment.violations (segment : Segment) : List Violation :=
  fieldsThenWhole
    (whenBroken "source_start_time" .fromZero segment.start ++
      whenBroken "playback_rate" .aboveZero segment.rate)
    (if !(segment.start.isFinite && segment.stop.isFinite && segment.rate.isFinite) then
      some .hasNonFinite
    else if segment.stop ≤ segment.start then some .startNotBeforeEnd
    else none)

/-- A clip names a file and starts at or after zero. -/
def Clip.violations (clip : Clip) : List Violation :=
  fieldsThenWhole
    (whenEmpty "id" clip.id ++ whenBroken "start_time" .fromZero clip.start)
    (if !clip.start.isFinite || clip.volume.any (fun volume => !volume.isFinite) then
      some .hasNonFinite
    else none)

/-- A style has a size, two colours, and a margin within the canvas. -/
def Style.violations (style : Style) : List Violation :=
  whenBroken "font_size" .aboveZero style.fontSize ++
  whenNoColor "primary_color" style.primaryColor ++
  whenNoColor "outline_color" style.outlineColor ++
  whenBroken "outline_width" .fromZero style.outlineWidth ++
  whenBroken "vertical_margin" .percent style.verticalMargin

/-- How far a sum of percentages may exceed a hundred. -/
def Region.slack : Float := 1e-6

def Region.violations (region : Region) : List Violation :=
  fieldsThenWhole
    (whenBroken "x" .percent region.x ++ whenBroken "y" .percent region.y ++
      whenBroken "width" .percent region.width ++ whenBroken "height" .percent region.height)
    (if region.enabled &&
        (decide (100 + Region.slack < region.x + region.width) ||
          decide (100 + Region.slack < region.y + region.height)) then
      some .outsideCanvas
    else none)

def violationsOf (name : String) (judge : α → List Violation) (items : List α) : List Violation :=
  (items.mapIdx fun index item => (judge item).map (.under [.field name, .item index])).flatten

def violationsIn (name : String) (judge : α → List Violation) (part : Option α) : List Violation :=
  part.toList.flatMap fun value => (judge value).map (.under [.field name])

def Request.violations (request : Request) : List Violation :=
  whenEmpty "video_file_id" request.source ++
  violationsOf "video_segments" Segment.violations request.segments ++
  violationsOf "audio_files" Clip.violations request.clips ++
  violationsIn "subtitle_style" Style.violations request.style ++
  violationsIn "hardsub_cover_box" Region.violations request.region ++
  (if request.masterVolume.isFinite then []
    else [.ofField "master_volume_db" (.notFinite request.masterVolume)])

end Montage
