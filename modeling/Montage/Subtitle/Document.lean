import Montage.Request.Basic
import Montage.Subtitle.Color
import Montage.Subtitle.Timecode

/-! The subtitle track that is burned into a video: an Advanced SubStation Alpha document with one
style and one event for each cue. -/

namespace Montage.Subtitle

/-- The number of an alignment, as on a numeric keypad. What is neither centred nor left is right. -/
def alignmentCode (alignment : String) : Nat :=
  if alignment = "center" then 2 else if alignment = "left" then 1 else 3

/-- The margin below subtitles in pixels. -/
def marginPixels (canvasHeight : UInt32) (percent : Float) : Nat :=
  Number.roundedWithin (UInt32.size - 1) (canvasHeight.toFloat * percent / 100)

def sideMargin : Nat := 10

/-- A colour of a style, or the given one if it is no colour. -/
def colorOr (fallback color : String) : String :=
  ((trackColor? color).or (trackColor? fallback)).getD ""

/-- The text of a cue on one line, with the mark for a break in place of each line end. -/
def onOneLine : List Char → List Char
  | [] => []
  | '\r' :: '\n' :: rest => '\\' :: 'N' :: onOneLine rest
  | c :: rest => if c = '\n' ∨ c = '\r' then '\\' :: 'N' :: onOneLine rest else c :: onOneLine rest

def styleFields : List String :=
  ["Name", "Fontname", "Fontsize", "PrimaryColour", "SecondaryColour", "OutlineColour",
    "BackColour", "Bold", "Italic", "Underline", "StrikeOut", "ScaleX", "ScaleY", "Spacing", "Angle",
    "BorderStyle", "Outline", "Shadow", "Alignment", "MarginL", "MarginR", "MarginV", "Encoding"]

def styleValues (style : Style) (canvasHeight : UInt32) : List String :=
  let standard : Style := {}
  ["Default", style.font, String.ofList (Number.plain style.fontSize),
    colorOr standard.primaryColor style.primaryColor, "&H000000FF",
    colorOr standard.outlineColor style.outlineColor, "&H80000000",
    "0", "0", "0", "0", "100", "100", "0", "0", "1",
    String.ofList (Number.plain style.outlineWidth), "0",
    toString (alignmentCode style.alignment), toString sideMargin, toString sideMargin,
    toString (marginPixels canvasHeight style.verticalMargin), "1"]

def eventFields : List String :=
  ["Layer", "Start", "End", "Style", "Name", "MarginL", "MarginR", "MarginV", "Effect", "Text"]

/-- The values of the fields of an event. The text comes last, for it may hold commas. -/
def eventValues (cue : Cue) : List String :=
  ["0", trackTime (seconds cue.start), trackTime (seconds cue.stop), "Default", "", "0", "0", "0",
    "", String.ofList (onOneLine cue.text.toList)]

def eventLine (cue : Cue) : String :=
  "Dialogue: " ++ ",".intercalate (eventValues cue)

def lines (cues : List Cue) (style : Option Style) (canvasWidth canvasHeight : UInt32) :
    List String :=
  ["[Script Info]", "Title: Rendered Subtitles", "ScriptType: v4.00+", "WrapStyle: 0",
    "ScaledBorderAndShadow: yes", "PlayResX: " ++ toString canvasWidth.toNat,
    "PlayResY: " ++ toString canvasHeight.toNat, "YCbCr Matrix: TV.709", "",
    "[V4+ Styles]", "Format: " ++ ", ".intercalate styleFields,
    "Style: " ++ ",".intercalate (styleValues (style.getD {}) canvasHeight), "",
    "[Events]", "Format: " ++ ", ".intercalate eventFields] ++
  cues.map eventLine

/-- The document; each line ends in a line feed. -/
def document (cues : List Cue) (style : Option Style) (canvasWidth canvasHeight : UInt32) : String :=
  String.join ((lines cues style canvasWidth canvasHeight).map (· ++ "\n"))

end Montage.Subtitle
