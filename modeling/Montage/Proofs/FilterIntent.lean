import Montage.Proofs.FilterAmounts
import Montage.Proofs.FilterWiring

/-! What a plan asks for, as signals over its inputs and without any labels. Input 0 is the source,
the clips follow in order, and the overlay image comes after them. -/

namespace Montage.Proofs.FilterIntent
open Montage.Filter FilterEffects FilterWiring FilterAmounts

/-- Signals one after the other or at once: several go through a filter that takes them all, a single
one stays as it is, and none at all leaves the whole. -/
def combined (effect : Nat → Effect) (whole : Signal) : List Signal → Signal
  | [] => whole
  | [only] => only
  | several => .filtered (effect several.length) several 0

def pictureStretch (segment : Segment) : Signal :=
  .chain [.cut .video (Number.plain segment.start) (Number.plain segment.stop), .retime (Number.plain segment.rate)]
    (.input 0 .video)

def onCanvas (canvas : Canvas) (picture : Signal) : Signal :=
  .chain [.fit canvas.width.toNat canvas.height.toNat, .centre canvas.width.toNat canvas.height.toNat,
    .frames canvas.frameRate.toNat] picture

section Amounts
variable (amounts : Amounts)

/-- The pixels of a side from a first one up to another, which is not among them any more. -/
structure Span where
  first : Nat
  behind : Nat

/-- The pixels from a percentage of a side on, as many as another percentage has, as far as there are any. -/
def span (length : UInt32) (start size : Float) : Span where
  first := min (amounts.share length start) length.toNat
  behind := min (min (amounts.share length start) length.toNat + amounts.share length size) length.toNat

/-- A box of a picture is cut out of one copy, blurred, and laid over the other copy where it was. -/
def blurredBox (columns rows : Span) (picture : Signal) : Signal :=
  .filtered (.lay columns.first rows.first)
    [.filtered (.copies 2) [picture] 0,
      .chain [.crop (columns.behind - columns.first) (rows.behind - rows.first) columns.first rows.first, .blur 20 3]
        (.filtered (.copies 2) [picture] 1)] 0

def blurred (canvas : Canvas) (region : Option Region) (picture : Signal) : Signal :=
  match region with
  | none => picture
  | some region =>
    let columns := span amounts canvas.width region.x region.width
    let rows := span amounts canvas.height region.y region.height
    if region.enabled = true ∧ columns.first < columns.behind ∧ rows.first < rows.behind then
      blurredBox columns rows picture
    else picture

end Amounts

def overlaid (plan : Plan) (canvas : Canvas) (picture : Signal) : Signal :=
  if plan.hasOverlay then
    .filtered (.lay 0 0)
      [picture, .chain [.scale canvas.width.toNat canvas.height.toNat]
        (.input (1 + plan.clips.length) .video)] 0
  else picture

/-- Subtitles by their path, in which the engine takes slashes for backslashes. -/
def subtitled (subtitles : Option String) (picture : Signal) : Signal :=
  match subtitles with
  | none => picture
  | some path => .filtered (.subtitles (path.toList.map fun c => if c = '\\' then '/' else c)) [picture] 0

section Plans
variable (amounts : Amounts) (plan : Plan)

def picture (canvas : Canvas) : Signal :=
  subtitled plan.subtitles (overlaid plan canvas (blurred amounts canvas plan.region (onCanvas canvas
    (combined (.join · 1 0) (.input 0 .video) (plan.segments.map pictureStretch)))))

def soundStretch (segment : Segment) : Signal :=
  .chain ([.cut .sound (Number.plain segment.start) (Number.plain segment.stop), .restart] ++
    (amounts.factors segment.rate).map fun factor => .tempo (Number.plain factor)) (.input 0 .sound)

/-- A sound at a level, unless that is zero decibels. -/
def leveled (level : Float) (sound : Signal) : Signal :=
  if level == 0 then sound else .filtered (.gain (Number.fixed 6 (amounts.gain level))) [sound] 0

def clip (index : Nat) (clip : Clip) : Signal :=
  let plain := Signal.input (index + 1) .sound
  let loud := match clip.volume with
    | none => plain
    | some level => leveled amounts level plain
  .filtered (.delay (amounts.delay clip.start) (amounts.delay clip.start)) [loud] 0

def contributors : List Signal :=
  (if plan.sourceHasSound then
    [combined (.join · 0 1) (.input 0 .sound) (plan.segments.map (soundStretch amounts))] else []) ++
  plan.clips.mapIdx (clip amounts)

def sound : Signal :=
  leveled amounts plan.masterVolume (combined .mix (.input 0 .sound) (contributors amounts plan))

end Plans

/-- Whether a plan asks for a sound other than that of the source as it is. -/
def HasSound (plan : Plan) : Prop :=
  plan.clips ≠ [] ∨ plan.sourceHasSound = true ∧ (plan.segments ≠ [] ∨ (plan.masterVolume == 0) = false)

/-- Whether the sound of a plan has a segment at a rate that no factors of tempo make up. -/
def Endless (plan : Plan) : Prop :=
  plan.sourceHasSound = true ∧ ∃ segment ∈ plan.segments, TempoFactors.Unsplit segment.rate

end Montage.Proofs.FilterIntent
