import Montage.Metrics.Path
import Montage.Render.Run

/-! Counts of what a service did, and their text form, one line for each count. -/

namespace Montage.Metrics

/-- What a request is counted under. -/
structure Answered where
  method : String
  path : String
  status : Nat
  deriving DecidableEq

/-- What was counted so far. Of what runs at a time nothing is known before the first start. -/
structure Tally where
  requests : List (Answered × Nat) := []
  renders : List (Render.State × Nat) := []
  requestsRunning : Option Int := none
  rendersRunning : Option Int := none
  deriving DecidableEq

def countOne [DecidableEq κ] (kind : κ) : List (κ × Nat) → List (κ × Nat)
  | [] => [(kind, 1)]
  | (other, count) :: rest =>
    if other = kind then (other, count + 1) :: rest else (other, count) :: countOne kind rest

namespace Tally

def answered (tally : Tally) (method path : String) (status : Nat) : Tally :=
  { tally with requests := countOne ⟨method, pathLabel path, status⟩ tally.requests }

def requestStarted (tally : Tally) : Tally :=
  { tally with requestsRunning := some (tally.requestsRunning.getD 0 + 1) }

def requestEnded (tally : Tally) : Tally :=
  { tally with requestsRunning := some (tally.requestsRunning.getD 0 - 1) }

def renderStarted (tally : Tally) : Tally :=
  { tally with rendersRunning := some (tally.rendersRunning.getD 0 + 1) }

/-- Marks the end of a render and counts the state it ended in. -/
def renderEnded (tally : Tally) (state : Render.State) : Tally :=
  { tally with
    rendersRunning := some (tally.rendersRunning.getD 0 - 1)
    renders := countOne state tally.renders }

end Tally

/-- A label value between quotes. Quotes, backslashes and line feeds are escaped. A backslash that
stands before a quote or another backslash is taken to escape it already; the flag says that such a
backslash has been met and not written yet. -/
def escaped (held : Bool) : List Char → List Char
  | [] => if held then ['\\', '\\'] else []
  | '\n' :: rest => '\\' :: 'n' :: escaped held rest
  | '"' :: rest => '\\' :: '"' :: escaped false rest
  | '\\' :: rest => (if held then ['\\', '\\'] else []) ++ escaped (!held) rest
  | c :: rest => (if held then ['\\', '\\'] else []) ++ c :: escaped false rest

def labelText (label : String × String) : String :=
  label.1 ++ "=\"" ++ String.ofList (escaped false label.2.toList) ++ "\""

/-- A line: the name of a count, its labels between braces, and its value. -/
def line (name : String) (labels : List (String × String)) (value : Int) : String :=
  let braced :=
    if labels.isEmpty then "" else "\x7b" ++ ",".intercalate (labels.map labelText) ++ "\x7d"
  name ++ braced ++ " " ++ toString value

def Answered.labels (key : Answered) : List (String × String) :=
  [("method", key.method), ("path", key.path), ("status", toString key.status)]

def outcomeLabels (state : Render.State) : List (String × String) :=
  [("outcome", state.name)]

def block (name kind : String) (lines : List String) : List String :=
  if lines.isEmpty then [] else ("# TYPE " ++ name ++ " " ++ kind) :: lines ++ [""]

def Tally.lines (tally : Tally) : List String :=
  let requestLines (name : String) : List String :=
    tally.requests.map fun (key, count) => line name key.labels count
  let renderLines (name : String) : List String :=
    tally.renders.map fun (state, count) => line name (outcomeLabels state) count
  let running (name : String) (value : Option Int) : List String :=
    value.toList.map (line name [])
  block "cutlist_http_requests_total" "counter" (requestLines "cutlist_http_requests_total") ++
  block "cutlist_renders_total" "counter" (renderLines "cutlist_renders_total") ++
  block "cutlist_http_requests_in_flight" "gauge"
    (running "cutlist_http_requests_in_flight" tally.requestsRunning) ++
  block "cutlist_renders_in_flight" "gauge"
    (running "cutlist_renders_in_flight" tally.rendersRunning) ++
  block "cutlist_http_request_duration_seconds" "summary"
    (requestLines "cutlist_http_request_duration_seconds_count") ++
  block "cutlist_render_duration_seconds" "summary"
    (renderLines "cutlist_render_duration_seconds_count")

def Tally.text (tally : Tally) : String :=
  String.join (tally.lines.map (· ++ "\n"))

end Montage.Metrics
