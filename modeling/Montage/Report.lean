import Montage.Request.Format

/-! What a client is told about a render. -/

namespace Montage

inductive Status where
  | ok
  | error
  deriving DecidableEq, Repr

/-- How many segments, clips and cues a request has. -/
structure Counts where
  segments : UInt64 := 0
  clips : UInt64 := 0
  cues : UInt64 := 0
  deriving DecidableEq

def Request.counts (request : Request) : Counts where
  segments := .ofNat request.segments.length
  clips := .ofNat request.clips.length
  cues := .ofNat request.cues.length

/-- The answer to a request that was acted on. Only a finished render has an output. -/
structure Report where
  status : Status
  message : String
  outputName : Option String := none
  outputPath : Option String := none
  size : Option UInt64 := none
  /-- The length of the finished video in seconds, when it could be found out. -/
  duration : Option Float := none
  counts : Counts := {}
  logFile : Option String := none
  command : Option String := none
  deriving DecidableEq

namespace Report

open Json (Reader Record)

/-- The report of a render that failed before anything could be said of its log or command. -/
def failure (message : String) (counts : Counts) : Report where
  status := .error
  message := message
  counts := counts

/-- Reads a status: its name, or an object with that name as its only key over `null`. A key of
another kind is looked at as a name. -/
def readStatus : Reader Status := fun json =>
  let named (name : String) : Except Json.Fault Status :=
    if name = "ok" then .ok .ok
    else if name = "error" then .ok .error
    else .error (.mismatch [] (.unknownVariant name ["ok", "error"]))
  match json with
  | .text (some name) => named name
  | .object ((some name, value) :: others) closed =>
    match named name with
    | .error fault => .error fault
    | .ok status =>
      match value with
      | .null => if others.isEmpty && closed then .ok status else .error .malformed
      | _ => .error (Json.unexpected value "unit")
  | .keyless value => .error (Json.unexpected value "variant identifier")
  | _ => .error .malformed

/-- The fields of a report. A list has to hold all of them. -/
def record : Record Report :=
  (fun status message outputName outputPath size duration segments clips cues logFile command =>
    { status, message, outputName, outputPath, size, duration
      counts := { segments, clips, cues }
      logFile, command : Report })
    <$> Record.required "status" [] readStatus
    <*> Record.required "message" [] Reader.text
    <*> Record.nullable "output_filename" [] Reader.text
    <*> Record.nullable "output_path" [] Reader.text
    <*> Record.nullable "file_size" [] (Reader.word64 "u64")
    <*> Record.nullable "duration_seconds" [] Reader.double
    <*> Record.required "segment_count" [] (Reader.word64 "usize")
    <*> Record.required "audio_track_count" [] (Reader.word64 "usize")
    <*> Record.required "subtitle_count" [] (Reader.word64 "usize")
    <*> Record.nullable "log_file" [] Reader.text
    <*> Record.nullable "command" [] Reader.text

def read : Reader Report :=
  record.reader "RenderResponse"

/-- The JSON form of a report. What is absent is left off. -/
def toJson (report : Report) : Json :=
  let part {α : Type} (name : String) (write : α → Json) (value : Option α) : List (String × Json) :=
    value.toList.map fun value => (name, write value)
  .ofMembers
    ([("status", .ofText (match report.status with | .ok => "ok" | .error => "error")),
        ("message", .ofText report.message)] ++
      part "output_filename" .ofText report.outputName ++
      part "output_path" .ofText report.outputPath ++
      part "file_size" (fun size => .ofNat size.toNat) report.size ++
      part "duration_seconds" .ofDouble report.duration ++
      [("segment_count", .ofNat report.counts.segments.toNat),
        ("audio_track_count", .ofNat report.counts.clips.toNat),
        ("subtitle_count", .ofNat report.counts.cues.toNat)] ++
      part "log_file" .ofText report.logFile ++
      part "command" .ofText report.command)

end Report

end Montage
