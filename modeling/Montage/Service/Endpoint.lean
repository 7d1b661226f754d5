import Montage.Text.Pieces

/-! What can be asked of the service, and under which paths and methods. -/

namespace Montage.Service

inductive Endpoint where
  /-- Renders a project; its identifier is as in the path. -/
  | render (project : String)
  | health
  | readiness
  | metrics
  deriving DecidableEq

namespace Endpoint

/-- The endpoint of a path. That of the counts may be closed. -/
def ofPath (showsMetrics : Bool) (path : String) : Option Endpoint :=
  match (Text.pieces (· = '/') path.toList).map String.ofList with
  | ["", "projects", project, "render"] => some (render project)
  | ["", "health"] | ["", "healthz"] => some health
  | ["", "ready"] => some readiness
  | ["", "metrics"] => if showsMetrics then some metrics else none
  | _ => none

def methods : Endpoint → List String
  | render _ => ["POST"]
  | health | readiness | metrics => ["GET", "HEAD"]

/-- The methods as told to clients that used another one. -/
def allow (endpoint : Endpoint) : String :=
  ",".intercalate endpoint.methods

end Endpoint

end Montage.Service
