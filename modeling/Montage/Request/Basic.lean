/-! What a client asks for: one source video cut into segments, audio clips mixed over it,
subtitles, a blurred region and an overlay image. -/

namespace Montage

/-- A stretch of the source, in seconds, and the rate at which it plays. -/
structure Segment where
  start : Float
  stop : Float
  rate : Float := 1
  deriving DecidableEq

/-- An uploaded sound that starts at a time of the finished video. -/
structure Clip where
  id : String
  start : Float := 0
  /-- A gain in decibels; without one the clip keeps its loudness. -/
  volume : Option Float := none
  track : Option UInt32 := none
  deriving DecidableEq

/-- A line of subtitles with its times in SRT notation. -/
structure Cue where
  start : String := "00:00:00,000"
  stop : String := "00:00:00,000"
  text : String := ""
  deriving DecidableEq

/-- How subtitles look. Margins are percentages of the canvas height. -/
structure Style where
  font : String := "Arial"
  fontSize : Float := 48
  primaryColor : String := "#FFFFFF"
  outlineColor : String := "#000000"
  outlineWidth : Float := 2.5
  verticalMargin : Float := 8
  alignment : String := "center"
  deriving DecidableEq

/-- A box on the canvas in percent of its width and height. -/
structure Region where
  x : Float := 0
  y : Float := 0
  width : Float := 0
  height : Float := 0
  enabled : Bool := false
  deriving DecidableEq

structure Request where
  source : String
  segments : List Segment := []
  cues : List Cue := []
  clips : List Clip := []
  style : Option Style := none
  region : Option Region := none
  /-- The gain of the whole mix in decibels. -/
  masterVolume : Float := 0
  /-- An image to lay over the video, as a data URL. -/
  frame : Option String := none
  outputName : Option String := none
  deriving DecidableEq

namespace Request

/-- The region to blur, if there is one and it is enabled. -/
def activeRegion (request : Request) : Option Region :=
  request.region.filter (·.enabled)

def imagePrefix : String := "data:image/png;base64,"

/-- The encoded overlay image. A URL of another kind counts as no image. -/
def overlay (request : Request) : Option String :=
  request.frame.bind fun url =>
    if imagePrefix.toList.isPrefixOf url.toList then
      some (String.ofList (url.toList.drop imagePrefix.length))
    else none

end Request

end Montage
