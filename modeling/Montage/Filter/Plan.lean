import Montage.Filter.Graph

/-! From a plan of the video to its filter graph. Input 0 is the source, inputs 1 to n are the clips
in order, and input n + 1 is the overlay image if there is one. -/

namespace Montage.Filter

/-- What the graph depends on. -/
structure Plan where
  segments : List Segment := []
  clips : List Clip := []
  region : Option Region := none
  hasOverlay : Bool := false
  /-- The path of the subtitle track, if there are subtitles. -/
  subtitles : Option String := none
  masterVolume : Float := 0
  sourceHasSound : Bool := true
  deriving DecidableEq

def videoOutput : String := "vout"

def soundOutput : String := "aout"

namespace Plan

def ofRequest (request : Request) (subtitles : Option String) (sourceHasSound : Bool) : Plan where
  segments := request.segments
  clips := request.clips
  region := request.activeRegion
  hasOverlay := request.overlay.isSome
  subtitles := subtitles
  masterVolume := request.masterVolume
  sourceHasSound := sourceHasSound

def inputCount (plan : Plan) : Nat :=
  1 + plan.clips.length + if plan.hasOverlay then 1 else 0

def overlayInput (plan : Plan) : Option Nat :=
  if plan.hasOverlay then some (1 + plan.clips.length) else none

/-- The box to blur: that of an enabled region, unless it covers no whole pixel. -/
def blurBox (plan : Plan) (canvas : Canvas) : Option Box :=
  ((plan.region.filter (·.enabled)).map (Box.ofRegion · canvas)).filter fun box => !box.isEmpty

def hasMasterVolume (plan : Plan) : Bool :=
  !(plan.masterVolume == 0)

/-- Whether the sound of the source can be passed on without a graph. -/
def leavesSound (plan : Plan) : Bool :=
  plan.segments.isEmpty && plan.clips.isEmpty && !plan.hasMasterVolume

/-- Whether one chain of filters on the picture is enough. -/
def isSimple (plan : Plan) (canvas : Canvas) : Bool :=
  plan.leavesSound && (plan.blurBox canvas).isNone && !plan.hasOverlay

end Plan

/-- Brings a picture to the canvas and its frame rate. -/
def normalization (canvas : Canvas) : List Filter :=
  [.fit canvas.width.toNat canvas.height.toNat, .centre canvas.width.toNat canvas.height.toNat,
    .frameRate canvas.frameRate.toNat]

/-- The label of the picture or the sound of a segment. -/
def segmentLabel (index : Nat) (stream : Stream) : String :=
  "seg" ++ toString index ++ match stream with
    | .video => "v"
    | .sound => "a"

def clipLabel (index : Nat) : String :=
  "clip" ++ toString index

/-- One node for each segment, which takes its stretch of the source. -/
def segmentNodes (segments : List Segment) (stream : Stream) (filters : Segment → List Filter) :
    List Node :=
  segments.mapIdx fun index segment =>
    .chain (.input 0 stream) (filters segment) (segmentLabel index stream)

def segmentPads (segments : List Segment) (stream : Stream) : List Pad :=
  segments.mapIdx fun index _ => .label (segmentLabel index stream)

/-- Joins pads of one stream: several by a node that adds them up, a single one by itself. -/
def joined (pads : List Pad) (filter : Nat → Filter) (label : String) (none : Pad) :
    List Node × Pad :=
  match pads with
  | [] => ([], none)
  | [only] => ([], only)
  | several => ([⟨several, [filter several.length], [label]⟩], .label label)

def pictureFilters (segment : Segment) : List Filter :=
  [.trim segment.start segment.stop, .retime segment.rate]

def soundFilters (segment : Segment) : List Filter :=
  [.trimSound segment.start segment.stop, .restartSound] ++
    ((tempoSteps segment.rate).getD []).map .tempo

/-- The picture so far: its nodes and the label of its last one. -/
structure Picture where
  nodes : List Node
  label : String

namespace Picture

/-- Adds nodes that read the picture and leave it under a new label. -/
def extend (picture : Picture) (nodes : Pad → List Node) (label : String) : Picture :=
  ⟨picture.nodes ++ nodes (.label picture.label), label⟩

/-- The segments one after the other, or the whole source, on the canvas. -/
def assembled (plan : Plan) (canvas : Canvas) : Picture :=
  let (joins, pad) := joined (segmentPads plan.segments .video) .joinVideo "vcat" (.input 0 .video)
  { nodes := segmentNodes plan.segments .video pictureFilters ++ joins ++
      [.chain pad (normalization canvas) "vnorm"]
    label := "vnorm" }

def blurred (box : Box) (picture : Picture) : Picture :=
  picture.extend (fun pad =>
    [⟨[pad], [.split], ["vbase", "vblursrc"]⟩,
      .chain (.label "vblursrc") [.crop box, .blur] "vblurred",
      ⟨[.label "vbase", .label "vblurred"], [.overlay box.x box.y], ["vblur"]⟩]) "vblur"

def overlaid (canvas : Canvas) (input : Nat) (picture : Picture) : Picture :=
  picture.extend (fun pad =>
    [.chain (.input input .video) [.scale canvas.width.toNat canvas.height.toNat] "ovlimg",
      ⟨[pad, .label "ovlimg"], [.overlay 0 0], ["vovl"]⟩]) "vovl"

def subtitled (path : String) (picture : Picture) : Picture :=
  picture.extend (fun pad => [.chain pad [.subtitles path] "vsub"]) "vsub"

def optionally (step : α → Picture → Picture) : Option α → Picture → Picture
  | some value, picture => step value picture
  | none, picture => picture

/-- The nodes of the finished picture. Subtitles come last, so that nothing covers them. -/
def finished (plan : Plan) (canvas : Canvas) : List Node :=
  let picture := optionally subtitled plan.subtitles
    (optionally (overlaid canvas) plan.overlayInput
      (optionally blurred (plan.blurBox canvas) (assembled plan canvas)))
  (relabelLast picture.label videoOutput picture.nodes).getD picture.nodes

end Picture

/-- The sound of the source: its nodes and its pad, if there is any. -/
def sourceSound (plan : Plan) : List Node × List Pad :=
  if plan.sourceHasSound then
    let (joins, pad) := joined (segmentPads plan.segments .sound) .joinSound "acat" (.input 0 .sound)
    (segmentNodes plan.segments .sound soundFilters ++ joins, [pad])
  else ([], [])

/-- The filters on a clip. A gain of zero decibels is left out. -/
def clipFilters (clip : Clip) : List Filter :=
  ((clip.volume.filter fun volume => !(volume == 0)).toList.map fun volume =>
    Filter.volume (linearGain volume)) ++ [.delay (delayMilliseconds clip.start)]

def clipNodes (clips : List Clip) : List Node :=
  clips.mapIdx fun index clip => .chain (.input (index + 1) .sound) (clipFilters clip) (clipLabel index)

def clipPads (clips : List Clip) : List Pad :=
  clips.mapIdx fun index _ => .label (clipLabel index)

/-- The nodes of the finished sound, if the plan needs any and has a sound to work on. -/
def soundNodes (plan : Plan) : Option (List Node) :=
  if plan.leavesSound then none
  else
    let (nodes, source) := sourceSound plan
    let contributors := source ++ clipPads plan.clips
    if contributors.isEmpty then none
    else
      let (mixes, mixed) := joined contributors .mix "amixed" (.input 0 .sound)
      let nodes := nodes ++ clipNodes plan.clips ++ mixes
      if plan.hasMasterVolume then
        some (nodes ++ [.chain mixed [.volume (linearGain plan.masterVolume)] soundOutput])
      else match mixed with
        | .label label => some ((relabelLast label soundOutput nodes).getD nodes)
        | pad => some (nodes ++ [.chain pad [.passSound] soundOutput])

/-- What the engine is told to do. -/
inductive Compiled where
  /-- One chain on the picture; the sound of the source passes through. -/
  | simple (filters : List Filter)
  /-- A graph for the picture, and for the sound where the flag says so. -/
  | complex (graph : Graph) (hasSound : Bool)
  deriving DecidableEq

namespace Compiled

def terminals (hasSound : Bool) : List String :=
  if hasSound then [videoOutput, soundOutput] else [videoOutput]

def argument : Compiled → Except GraphFault String
  | simple filters => .ok (",".intercalate (filters.map Filter.text))
  | complex graph hasSound => graph.serialize (terminals hasSound)

end Compiled

/-- The graph of a plan that one chain is not enough for. -/
def Plan.graph (plan : Plan) (canvas : Canvas) : Graph :=
  ⟨plan.inputCount, Picture.finished plan canvas ++ (soundNodes plan).getD []⟩

/-- Whether the search for the factors of a rate does not end. Rates are split for the sound alone. -/
def Plan.isEndless (plan : Plan) : Bool :=
  plan.sourceHasSound && plan.segments.any fun segment => (tempoSteps segment.rate).isNone

/-- Compiles a plan. The wiring of a graph is checked before it is handed out. Where a search for
factors does not end there is no result, not even a fault. -/
def Plan.compile (plan : Plan) (canvas : Canvas) : Option (Except GraphFault Compiled) :=
  if plan.isEndless then none
  else if plan.isSimple canvas then
    some (.ok (.simple (normalization canvas ++ plan.subtitles.toList.map .subtitles)))
  else
    let compiled := Compiled.complex (plan.graph canvas) (soundNodes plan).isSome
    some (compiled.argument.map fun _ => compiled)

end Montage.Filter
