import Montage.Render.Fault
import Montage.Text.Blank

/-! Logs of what the engine was told and what came of it. A log lies beside the rendered file and is
never shared: its name is reserved by creating it where nothing is yet. -/

namespace Montage.Render.Audit

def rule : String :=
  String.ofList (List.replicate 80 '=')

def fileName (instant : Instant) : String :=
  "render_log_" ++ instant.stamp ++ "_" ++ instant.millisecondText ++ ".txt"

def header (project output commandLine : String) (instant : Instant) : String :=
  rule ++ "\nRENDER LOG\n" ++ rule ++ "\nProject: " ++ project ++
    "\nTimestamp: " ++ instant.dateTime "+00:00" ++ "\nOutput: " ++ output ++
    "\n\nCOMMAND:\n" ++ commandLine ++ "\n\n"

def withoutTrailingBlanks (text : String) : String :=
  String.ofList (Text.trimEnd text.toList)

def outcomeEntry (outcome : Outcome) (timeoutSeconds : Nat) : String :=
  "STDOUT:\n" ++ withoutTrailingBlanks outcome.stdout ++ "\n\nSTDERR:\n" ++
    withoutTrailingBlanks outcome.stderr ++ "\n\n" ++
    match outcome with
    | .completed code _ _ =>
      "Return Code: " ++ (match code with
        | some code => toString code
        | none => "none (terminated by signal)") ++ "\n"
    | .timedOut _ _ =>
      rule ++ "\nTIMEOUT: process exceeded " ++ toString timeoutSeconds ++ " seconds\n" ++ rule ++ "\n"

/-- What is noted of an error that kept the engine from coming to an outcome. -/
def errorEntry (fault : Fault) : String :=
  "ERROR: " ++ fault.message ++ "\n"

/-- How many numbered names are tried after the first choice. -/
def mostNumbered : Nat := 1000

def numbered (name : String) (number : Nat) : String :=
  let stem := (Path.stem name).getD name
  match Path.extension name with
  | some extension => stem ++ "_" ++ toString number ++ "." ++ extension
  | none => stem ++ "_" ++ toString number

def candidates (name : String) : List String :=
  name :: (List.range mostNumbered).map fun index => numbered name (index + 1)

/-- Creates the first file of a list of names that does not exist yet. -/
def reserveFirst (directory name : String) : List String → Job (Except DiskFault String)
  | [] => pure (.error (.noFreeName name directory))
  | candidate :: rest => do
    let path := Path.join directory candidate
    match ← (Job.ask (.createNew path) : Job (Except DiskFault Unit)) with
    | .ok () => pure (.ok path)
    | .error .alreadyExists => reserveFirst directory name rest
    | .error fault => pure (.error fault)

/-- Creates an empty file of a name, or of that name with a number if it is taken. -/
def reserve (directory name : String) : Job (Except DiskFault String) :=
  reserveFirst directory name (candidates name)

def create (directory project output commandLine : String) (instant : Instant) :
    Job (Except DiskFault String) := do
  match ← reserve directory (fileName instant) with
  | .error fault => pure (.error fault)
  | .ok path =>
    let text := header project output commandLine instant
    match ← (Job.ask (.append path text.toUTF8) : Job (Except DiskFault Unit)) with
    | .error fault => pure (.error fault)
    | .ok () => pure (.ok path)

def note (path entry : String) : Job (Except DiskFault Unit) :=
  Job.ask (.append path entry.toUTF8)

end Montage.Render.Audit
