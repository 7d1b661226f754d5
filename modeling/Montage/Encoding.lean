import Montage.Request.Format

/-! How the finished video is encoded. -/

namespace Montage

structure Encoding where
  codec : String := "libx264"
  preset : String := "medium"
  /-- The constant rate factor; smaller means better and larger. -/
  quality : UInt8 := 23
  audioCodec : String := "aac"
  audioBitrate : String := "192k"
  /-- Whether the index goes to the front of the file, so that playing can start early. -/
  fastStart : Bool := true
  extraArguments : List String := []
  deriving DecidableEq

namespace Encoding

open Json (Reader Record)

def standard : Encoding := {}

def record : Record Encoding :=
  Encoding.mk
    <$> Record.defaulting "codec" [] Reader.text standard.codec
    <*> Record.defaulting "preset" [] Reader.text standard.preset
    <*> Record.defaulting "crf" [] Reader.word8 standard.quality
    <*> Record.defaulting "audio_codec" [] Reader.text standard.audioCodec
    <*> Record.defaulting "audio_bitrate" [] Reader.text standard.audioBitrate
    <*> Record.defaulting "faststart" [] Reader.flag standard.fastStart
    <*> Record.defaulting "extra_args" [] (Reader.list Reader.text) []

def read : Reader Encoding :=
  record.reader "EncodingConfig"

def toJson (encoding : Encoding) : Json :=
  .ofMembers
    [("codec", .ofText encoding.codec), ("preset", .ofText encoding.preset),
      ("crf", .ofNat encoding.quality.toNat), ("audio_codec", .ofText encoding.audioCodec),
      ("audio_bitrate", .ofText encoding.audioBitrate), ("faststart", .boolean encoding.fastStart),
      ("extra_args", .ofList .ofText encoding.extraArguments)]

def arguments (encoding : Encoding) : List String :=
  ["-c:v", encoding.codec, "-preset", encoding.preset, "-crf", toString encoding.quality.toNat,
    "-c:a", encoding.audioCodec, "-b:a", encoding.audioBitrate] ++
  (if encoding.fastStart then ["-movflags", "+faststart"] else []) ++
  encoding.extraArguments

end Encoding

end Montage
