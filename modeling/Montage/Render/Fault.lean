import Montage.Filter.Graph
import Montage.Json.Fault
import Montage.Machine.Ending

/-! Why a render, or looking into a media file, fails. -/

namespace Montage.Render

inductive Fault where
  | engineNotFound (detail : String)
  | proberNotFound (detail : String)
  /-- The engine reported failure or was stopped; the last lines that it printed go with it. -/
  | engineFailed (code : Option Int) (lastLines : String)
  /-- The engine reported success and left no output, or an empty one. -/
  | noOutput
  | proberFailed (ending : Ending) (stderr : String)
  | graph (fault : Filter.GraphFault)
  /-- Compiling the filters does not end. This is never told to anyone: it stands for no answer. -/
  | endless
  /-- The overlay image stands for no bytes, for a reason in words. -/
  | overlay (reason : String)
  | fileNotFound (path : String)
  | timeout (seconds : Nat)
  | disk (fault : DiskFault)
  | json (fault : Json.Fault)
  | clipCount (expected given : Nat)
  /-- Anything else, in words. -/
  | internal (message : String)
  deriving DecidableEq

def codeLabel : Option Int → String
  | some code => toString code
  | none => "signal"

def Fault.message : Fault → String
  | engineNotFound detail => "FFmpeg not found: " ++ detail
  | proberNotFound detail => "FFprobe not found: " ++ detail
  | engineFailed code lastLines =>
    "FFmpeg failed (exit code " ++ codeLabel code ++ "): " ++ lastLines
  | noOutput => "FFmpeg exited successfully but produced no output file"
  | proberFailed ending _ => "FFprobe command failed: ffprobe exited with " ++ ending.describe
  | graph fault => "Invalid filter graph: " ++ fault.message
  | endless => ""
  | overlay reason => "Invalid overlay image: " ++ reason
  | fileNotFound path => "File not found: " ++ path
  | timeout seconds => "Render timed out after " ++ toString seconds ++ " seconds"
  | disk fault => "IO error: " ++ fault.message
  | json .malformed => "JSON parse error: malformed text"
  | json (.mismatch _ problem) => "JSON parse error: " ++ problem.message
  | clipCount expected given =>
    "Internal error: expected " ++ toString expected ++ " audio inputs, got " ++ toString given
  | internal message => "Internal error: " ++ message

/-- A step of a job that may fail for one of these reasons. -/
abbrev Attempt (α : Type) := ExceptT Fault Job α

def Attempt.fail (fault : Fault) : Attempt α :=
  ExceptT.mk (pure (.error fault))

def Attempt.ofJob (job : Job α) : Attempt α :=
  ExceptT.lift job

/-- A result that may be a fault of another kind. -/
def Attempt.ofExcept (describe : ε → Fault) (result : Except ε α) : Attempt α :=
  ExceptT.mk (pure (result.mapError describe))

/-- Goes on with a result that may be a fault of the disk. -/
def Attempt.ofDisk (job : Job (Except DiskFault α)) : Attempt α :=
  ExceptT.mk (job.bind fun result => pure (result.mapError .disk))

/-- What is told of a program that was looked for in vain. -/
def notInstalled (program : String) : String :=
  "'" ++ program ++ "' is not installed or not on PATH"

def findEngine (program : String) : Attempt String := do
  if ← Attempt.ofJob (Job.ask (.findProgram program)) then pure program
  else Attempt.fail (.engineNotFound (notInstalled program))

def findProber (program : String) : Attempt String := do
  if ← Attempt.ofJob (Job.ask (.findProgram program)) then pure program
  else Attempt.fail (.proberNotFound (notInstalled program))

end Montage.Render
