import Montage.Filter.Quoting
import Montage.Filter.Units

/-! The filters that a render uses. -/

namespace Montage

inductive Filter where
  /-- A stretch of pictures, in seconds. -/
  | trim (start stop : Float)
  /-- Lets time begin anew and run at a rate. -/
  | retime (rate : Float)
  /-- A stretch of sound, in seconds. -/
  | trimSound (start stop : Float)
  | restartSound
  | tempo (factor : Float)
  | volume (gain : Float)
  /-- A delay of both channels in milliseconds. -/
  | delay (milliseconds : Nat)
  | joinVideo (count : Nat)
  | joinSound (count : Nat)
  /-- Scales to the largest size that fits, keeping the proportions. -/
  | fit (width height : Nat)
  /-- Centres on a canvas. -/
  | centre (width height : Nat)
  | frameRate (rate : Nat)
  | scale (width height : Nat)
  /-- Copies a picture to two outputs. -/
  | split
  | crop (box : Filter.Box)
  | blur
  /-- Lays the second input over the first one. -/
  | overlay (x y : Nat)
  | subtitles (path : String)
  | mix (count : Nat)
  | passSound
  /-- Any other filter, as it is written. -/
  | verbatim (text : String)
  deriving DecidableEq

namespace Filter

def numberText (x : Float) : String :=
  String.ofList (Number.plain x)

def text : Filter → String
  | trim start stop => "trim=start=" ++ numberText start ++ ":end=" ++ numberText stop
  | retime rate => "setpts=(PTS-STARTPTS)/" ++ numberText rate
  | trimSound start stop => "atrim=start=" ++ numberText start ++ ":end=" ++ numberText stop
  | restartSound => "asetpts=PTS-STARTPTS"
  | tempo factor => "atempo=" ++ numberText factor
  | volume gain => "volume=" ++ gainText gain
  | delay milliseconds => "adelay=" ++ toString milliseconds ++ "|" ++ toString milliseconds
  | joinVideo count => "concat=n=" ++ toString count ++ ":v=1:a=0"
  | joinSound count => "concat=n=" ++ toString count ++ ":v=0:a=1"
  | fit width height =>
    "scale=" ++ toString width ++ ":" ++ toString height ++ ":force_original_aspect_ratio=decrease"
  | centre width height =>
    "pad=" ++ toString width ++ ":" ++ toString height ++ ":(ow-iw)/2:(oh-ih)/2"
  | frameRate rate => "fps=" ++ toString rate
  | scale width height => "scale=" ++ toString width ++ ":" ++ toString height
  | split => "split=2"
  | crop box =>
    "crop=" ++ toString box.width ++ ":" ++ toString box.height ++ ":" ++ toString box.x ++ ":" ++
      toString box.y
  | blur => "boxblur=luma_radius=20:luma_power=3"
  | overlay x y => "overlay=" ++ toString x ++ ":" ++ toString y
  | subtitles path => "ass='" ++ escapedPath path ++ "'"
  | mix count => "amix=inputs=" ++ toString count ++ ":duration=longest:normalize=0"
  | passSound => "anull"
  | verbatim text => text

/-- The name of a filter: its text up to the first equals sign. -/
def name (filter : Filter) : String :=
  String.ofList (filter.text.toList.takeWhile (· ≠ '='))

end Filter

end Montage
