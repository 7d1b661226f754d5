import Montage.Request.Basic
import Montage.Json.Record

/-! The JSON form of requests. Most fields go by two names, and most may be left off. -/

namespace Montage

open Json (Reader Record)

namespace Segment

def record : Record Segment :=
  Segment.mk
    <$> Record.required "sourceStartTime" ["sourceStart"] Reader.double
    <*> Record.required "sourceEndTime" ["sourceEnd"] Reader.double
    <*> Record.defaulting "playbackRate" [] Reader.double 1

def read : Reader Segment :=
  record.reader "VideoSegment"

def toJson (segment : Segment) : Json :=
  .ofMembers
    [("sourceStartTime", .ofDouble segment.start), ("sourceEndTime", .ofDouble segment.stop),
      ("playbackRate", .ofDouble segment.rate)]

end Segment

namespace Clip

def record : Record Clip :=
  Clip.mk
    <$> Record.required "id" [] Reader.text
    <*> Record.defaulting "startTime" [] Reader.double 0
    <*> Record.defaulting "volumeDb" [] (Reader.optional Reader.double) none
    <*> Record.defaulting "track" [] (Reader.optional Reader.word32) none

def read : Reader Clip :=
  record.reader "AudioClip"

def toJson (clip : Clip) : Json :=
  .ofMembers
    [("id", .ofText clip.id), ("startTime", .ofDouble clip.start),
      ("volumeDb", .ofOption .ofDouble clip.volume),
      ("track", .ofOption (fun track => .ofNat track.toNat) clip.track)]

end Clip

namespace Cue

def record : Record Cue :=
  Cue.mk
    <$> Record.defaulting "startTime" [] Reader.text "00:00:00,000"
    <*> Record.defaulting "endTime" [] Reader.text "00:00:00,000"
    <*> Record.defaulting "text" [] Reader.text ""

def read : Reader Cue :=
  record.reader "SubtitleCue"

def toJson (cue : Cue) : Json :=
  .ofMembers
    [("startTime", .ofText cue.start), ("endTime", .ofText cue.stop), ("text", .ofText cue.text)]

end Cue

namespace Style

def standard : Style := {}

def record : Record Style :=
  Style.mk
    <$> Record.defaulting "fontFamily" [] Reader.text standard.font
    <*> Record.defaulting "fontSize" [] Reader.double standard.fontSize
    <*> Record.defaulting "primaryColor" [] Reader.text standard.primaryColor
    <*> Record.defaulting "outlineColor" [] Reader.text standard.outlineColor
    <*> Record.defaulting "outlineWidth" [] Reader.double standard.outlineWidth
    <*> Record.defaulting "verticalMargin" [] Reader.double standard.verticalMargin
    <*> Record.defaulting "horizontalAlign" [] Reader.text standard.alignment

def read : Reader Style :=
  record.reader "SubtitleStyle"

def toJson (style : Style) : Json :=
  .ofMembers
    [("fontFamily", .ofText style.font), ("fontSize", .ofDouble style.fontSize),
      ("primaryColor", .ofText style.primaryColor), ("outlineColor", .ofText style.outlineColor),
      ("outlineWidth", .ofDouble style.outlineWidth),
      ("verticalMargin", .ofDouble style.verticalMargin),
      ("horizontalAlign", .ofText style.alignment)]

end Style

namespace Region

def record : Record Region :=
  Region.mk
    <$> Record.defaulting "x" [] Reader.double 0
    <*> Record.defaulting "y" [] Reader.double 0
    <*> Record.defaulting "width" [] Reader.double 0
    <*> Record.defaulting "height" [] Reader.double 0
    <*> Record.defaulting "enabled" [] Reader.flag false

def read : Reader Region :=
  record.reader "BlurRegion"

def toJson (region : Region) : Json :=
  .ofMembers
    [("x", .ofDouble region.x), ("y", .ofDouble region.y), ("width", .ofDouble region.width),
      ("height", .ofDouble region.height), ("enabled", .boolean region.enabled)]

end Region

namespace Request

def record : Record Request :=
  Request.mk
    <$> Record.required "video_file_id" ["videoFileId"] Reader.text
    <*> Record.defaulting "video_segments" ["videoSegments"] (Reader.list Segment.read) []
    <*> Record.defaulting "subtitles" [] (Reader.list Cue.read) []
    <*> Record.defaulting "audio_files" ["audioFiles"] (Reader.list Clip.read) []
    <*> Record.defaulting "subtitle_style" ["subtitleStyle"] (Reader.optional Style.read) none
    <*> Record.defaulting "hardsub_cover_box" ["hardsubCoverBox", "blurRegion"]
      (Reader.optional Region.read) none
    <*> Record.defaulting "master_volume_db" ["masterVolumeDb"] Reader.double 0
    <*> Record.defaulting "video_frame_url" ["videoFrameUrl"] (Reader.optional Reader.text) none
    <*> Record.defaulting "output_filename" ["outputFilename"] (Reader.optional Reader.text) none

def read : Reader Request :=
  record.reader "RenderRequest"

def toJson (request : Request) : Json :=
  .ofMembers
    [("video_file_id", .ofText request.source),
      ("video_segments", .ofList Segment.toJson request.segments),
      ("subtitles", .ofList Cue.toJson request.cues),
      ("audio_files", .ofList Clip.toJson request.clips),
      ("subtitle_style", .ofOption Style.toJson request.style),
      ("hardsub_cover_box", .ofOption Region.toJson request.region),
      ("master_volume_db", .ofDouble request.masterVolume),
      ("video_frame_url", .ofOption .ofText request.frame),
      ("output_filename", .ofOption .ofText request.outputName)]

end Request

end Montage
