import Montage.Number.Reading
import Montage.Text.Pieces

/-! Paths as they are counted. What tells single projects and items apart is replaced, so that the
number of different paths stays small. -/

namespace Montage.Metrics

/-- Replaces the segment after each `projects`. An empty segment is left as it is. -/
def hideProjects : List String → List String
  | [] => []
  | [last] => [last]
  | segment :: next :: rest =>
    if segment = "projects" ∧ next ≠ "" then segment :: ":project_id" :: hideProjects rest
    else segment :: hideProjects (next :: rest)

def isNumber (segment : String) : Bool :=
  !segment.isEmpty && segment.toList.all Number.isDigit

/-- Replaces segments that are numbers. A replacement uses up the slash after the number, so that a
segment right after it is left as it is. -/
def hideNumbers : List String → List String
  | [] => []
  | [last] => [if isNumber last then ":id" else last]
  | segment :: next :: rest =>
    if isNumber segment then ":id" :: next :: hideNumbers rest
    else segment :: hideNumbers (next :: rest)

/-- A path as it is counted. The part before the first slash is no segment. -/
def pathLabel (path : String) : String :=
  match (Text.pieces (· = '/') path.toList).map String.ofList with
  | [] => ""
  | first :: segments => "/".intercalate (first :: hideNumbers (hideProjects segments))

end Montage.Metrics
