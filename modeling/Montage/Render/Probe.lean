import Montage.Json.Record
import Montage.Render.Fault
import Montage.Text.Blank

/-! What a render wants to know of a media file, as the prober tells it in JSON. -/

namespace Montage.Render

structure MediaInfo where
  /-- The length in seconds. -/
  duration : Option Float
  hasSound : Bool
  deriving DecidableEq

namespace Probe

open Json (Reader Record)

structure Container where
  duration : Option String

structure Stream where
  kind : Option String

structure Findings where
  container : Option Container
  streams : List Stream

def readContainer : Reader Container :=
  Record.reader "FfprobeFormat" (Container.mk <$> Record.nullable "duration" [] Reader.text)

def readStream : Reader Stream :=
  Record.reader "FfprobeStream" (Stream.mk <$> Record.nullable "codec_type" [] Reader.text)

def readFindings : Reader Findings :=
  Record.reader "FfprobeOutput"
    (Findings.mk
      <$> Record.defaulting "format" [] (Reader.optional readContainer) none
      <*> Record.defaulting "streams" [] (Reader.list readStream) [])

/-- The length that a text states: a finite number of seconds that is not negative. -/
def readDuration (text : String) : Option Float :=
  (Number.readDouble (Text.trim text.toList)).filter fun seconds => seconds.isFinite && 0 ≤ seconds

def Findings.info (findings : Findings) : MediaInfo where
  duration := (findings.container.bind (·.duration)).bind readDuration
  hasSound := findings.streams.any fun stream => stream.kind = some "audio"

def arguments (path : String) : List String :=
  ["-v", "quiet", "-print_format", "json", "-show_format", "-show_streams", path]

def interpret (prober : String) : Except DiskFault Finished → Except Fault MediaInfo
  | .error .notFound => .error (.proberNotFound prober)
  | .error fault => .error (.disk fault)
  | .ok finished =>
    if finished.ending = .exited 0 then
      match Json.decodeBytes readFindings finished.stdout with
      | .ok findings => .ok findings.info
      | .error fault => .error (.json fault)
    else .error (.proberFailed finished.ending (Text.lossy finished.stderr))

def media (prober path : String) : Attempt MediaInfo := ExceptT.mk do
  if ← (Job.ask (.isThere path) : Job Bool) then
    let result ← (Job.ask (.runProgram prober (arguments path) none) : Job (Except DiskFault Finished))
    pure (interpret prober result)
  else pure (.error (.fileNotFound path))

end Probe

end Montage.Render
