import Montage.Http.Message
import Montage.Request.Violation
import Montage.Service.Settings
import Montage.Store.Basic

/-! Why a request to render is refused before anything is rendered. -/

namespace Montage.Service

/-- What was looked for in vain. -/
inductive Missing where
  | project (id : String)
  | source (id : String)
  | clip (id : String)
  deriving DecidableEq

def Missing.message : Missing → String
  | project id => "Project " ++ id ++ " not found"
  | source id => "Video file " ++ id ++ " not found"
  | clip id => "Audio file " ++ id ++ " not found"

inductive Refusal where
  | invalid (violations : List Violation)
  | missing (what : Missing)
  | store (fault : Store.Fault)
  deriving DecidableEq

namespace Refusal

def status : Refusal → Nat
  | invalid _ | store (.invalidKey _) => 400
  | missing _ => 404
  | store _ => 500

def describe (violation : Violation) : String :=
  Violation.describePlace violation.place ++ ": Validation error: " ++ violation.problem.code

def message : Refusal → String
  | invalid violations => "Validation error: " ++ "\n".intercalate (violations.map describe)
  | missing what => "Not found: " ++ what.message
  | store fault => "Storage error: " ++ fault.message

/-- What the client is told. Failures of the service itself may be kept from it. -/
def detail (settings : Settings) (refusal : Refusal) : String :=
  if refusal.status = 500 ∧ settings.hidesDetails then "An internal error occurred"
  else refusal.message

def response (settings : Settings) (refusal : Refusal) : Http.Response :=
  .json refusal.status (.ofMembers [("detail", .ofText (refusal.detail settings))])

end Refusal

end Montage.Service
