import Montage.Http.Message

/-! Sharing across origins: which pages of other origins may use the service, as told to browsers in
headers of each response, and in the answer to the request by which they ask beforehand. -/

namespace Montage.Http

/-- Who may use the service. -/
inductive Sharing where
  /-- Pages of any origin, without credentials. -/
  | everyone
  /-- Pages of the listed origins, with credentials. -/
  | listed (origins : List String)
  deriving DecidableEq

namespace Sharing

/-- The sharing for configured origins. A star among them stands for all; what cannot be the value of
a header is left out. -/
def ofOrigins (origins : List String) : Sharing :=
  if origins.contains "*" then .everyone else .listed (origins.filter isHeaderValue)

def vary : String × String :=
  ("vary", "origin, access-control-request-method, access-control-request-headers")

def allowedOrigin (sharing : Sharing) (origin : Option String) : List (String × String) :=
  match sharing with
  | everyone => [("access-control-allow-origin", "*")]
  | listed origins =>
    (origin.filter origins.contains).toList.map fun origin => ("access-control-allow-origin", origin)

def credentials : Sharing → List (String × String)
  | everyone => []
  | listed _ => [("access-control-allow-credentials", "true")]

def exposed : Sharing → List (String × String)
  | everyone => [("access-control-expose-headers", "*")]
  | listed _ => [("access-control-expose-headers", "content-length,content-type")]

def allowed : Sharing → List (String × String)
  | everyone => [("access-control-allow-methods", "*"), ("access-control-allow-headers", "*")]
  | listed _ =>
    [("access-control-allow-methods", "GET,POST,OPTIONS"),
      ("access-control-allow-headers", "authorization,content-type,accept,origin")]

/-- For how many seconds the answer to a page that asks beforehand stays good. -/
def maxAge : String × String :=
  ("access-control-max-age", "600")

/-- The headers of a response to a page of an origin. -/
def headers (sharing : Sharing) (origin : Option String) : List (String × String) :=
  sharing.credentials ++ [vary] ++ sharing.exposed ++ sharing.allowedOrigin origin

def preflight (sharing : Sharing) (origin : Option String) : Response where
  status := 200
  headers :=
    sharing.credentials ++ [vary] ++ sharing.allowed ++ [maxAge] ++ sharing.allowedOrigin origin

end Sharing

end Montage.Http
