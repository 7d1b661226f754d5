import Montage.Http.MediaType
import Montage.Http.Percent
import Montage.Http.Sharing
import Montage.Metrics.Tally
import Montage.Service.Endpoint
import Montage.Service.Refusal

/-! The service that renders over HTTP. A response is built from the inside out: an endpoint answers,
the request is counted, and headers for security, for the identity of the request and for sharing
are set on whatever came of it. Requests by which pages ask beforehand are answered at once. -/

namespace Montage

structure Service where
  settings : Service.Settings := {}
  renders : Render.Settings := {}
  store : Store
  deriving DecidableEq

namespace Service

abbrev Exchange (α : Type) := StateT Metrics.Tally Job α

def ofEnvironment (environment : Environment) : Service where
  settings := .ofEnvironment environment
  renders := .ofEnvironment environment
  store := .ofEnvironment environment

/-- What a look-up in the store finds, or the refusal if there is nothing. -/
def lookUp (access : Store.Access (Option α)) (what : Missing) : ExceptT Refusal Job α := ExceptT.mk do
  match ← access.run with
  | .error fault => pure (.error (.store fault))
  | .ok none => pure (.error (.missing what))
  | .ok (some value) => pure (.ok value)

def upload (file : Store.StoredFile) : Render.Upload :=
  ⟨file.name, file.content⟩

def lookUpClips (store : Store) : List Clip → ExceptT Refusal Job (List Render.Upload)
  | [] => pure []
  | clip :: rest => do
    let file ← lookUp (store.getFile clip.id) (.clip clip.id)
    let uploads ← lookUpClips store rest
    pure (upload file :: uploads)

/-- Gathers what a render works on: the request has to be valid, and the project, the source and all
clips have to be there. The first of these that fails decides. -/
def gather (store : Store) (project : String) (request : Request) :
    ExceptT Refusal Job Render.Inputs := do
  if request.violations.isEmpty then
    let _ ← lookUp (store.getProject project) (.project project)
    let source ← lookUp (store.getFile request.source) (.source request.source)
    let clips ← lookUpClips store request.clips
    pure { project, request, source := upload source, clips }
  else ExceptT.mk (pure (.error (.invalid request.violations)))

/-- Renders a project. From the start of the render on every outcome is a report. -/
def renderProject (service : Service) (project : String) (request : Request) :
    Exchange Http.Response := do
  match ← (gather service.store project request).run with
  | .error refusal => pure (refusal.response service.settings)
  | .ok inputs => do
    modify Metrics.Tally.renderStarted
    let result ← (Render.render service.renders inputs : Job Render.Result)
    modify fun tally => tally.renderEnded result.state
    pure (.json 200 result.report.toJson)

/-- The largest body that is read, whatever the settings allow. -/
def readLimit : Nat := 2097152

/-- What is told of a body that is too large. -/
def tooLarge : String := "length limit exceeded"

def declaredLength (request : Http.Request) : Option Nat :=
  (request.readable? "content-length").bind fun value =>
    Number.readNatural (UInt64.size - 1) value.toList

def declaresTooMuch (settings : Settings) (request : Http.Request) : Bool :=
  (declaredLength request).any fun length => settings.bodyLimit < length

/-- Whether the body is larger than allowed, than declared, or than is read at all. -/
def isTooLarge (settings : Settings) (request : Http.Request) : Bool :=
  settings.bodyLimit < request.body.size || readLimit < request.body.size ||
    (declaredLength request).any fun length => length < request.body.size

def saysJson (request : Http.Request) : Bool :=
  ((request.readable? "content-type").bind Http.MediaType.read).any Http.MediaType.isJson

/-- Where a value of an unsuitable shape stands, before what is wrong with it. -/
def describeFault (path : List Json.Step) (problem : Json.Mismatch) : String :=
  if path.isEmpty then problem.message else Json.describePath path ++ ": " ++ problem.message

/-- Reads the body of a request as a request to render, or tells why it cannot be read. -/
def readBody (settings : Settings) (request : Http.Request) : Except Http.Response Request :=
  if !saysJson request then
    .error (.text 415 "Expected request with `Content-Type: application/json`")
  else if isTooLarge settings request then
    .error (.text 413 ("Failed to buffer the request body: " ++ tooLarge))
  else match Json.decodeLeading Request.read request.body with
    | .ok request => .ok request
    | .error .malformed => .error (.text 400 "Failed to parse the request body as JSON: malformed text")
    | .error (.mismatch path problem) =>
      .error (.text 422 ("Failed to deserialize the JSON body into the target type: " ++
        describeFault path problem))

/-- Reads the identifier of a project and the request to render it, and renders. -/
def answerRender (service : Service) (segment : String) (request : Http.Request) :
    Exchange Http.Response :=
  match Http.segmentText? segment with
  | none => pure (.text 400 "Invalid URL: Invalid UTF-8 in `project_id`")
  | some project =>
    match readBody service.settings request with
    | .error response => pure response
    | .ok body => service.renderProject project body

def version : String := "0.1.0"

def answerHealth : Exchange Http.Response := do
  let now ← (Job.ask .now : Job Instant)
  pure (.json 200 (.ofMembers
    [("status", .ofText "healthy"), ("version", .ofText version),
      ("timestamp", .ofText (now.dateTime "+00:00"))]))

/-- What is told of a program that was looked for. -/
def programStatus : Except Render.Fault String → Json
  | .ok path => .ofMembers [("status", .ofText "ok"), ("path", .ofText path)]
  | .error fault => .ofMembers [("status", .ofText "error"), ("error", .ofText fault.message)]

/-- Tells whether there are the programs that renders need. Without the prober renders only know
less. -/
def answerReadiness (service : Service) : Exchange Http.Response := do
  let engine ← ((Render.findEngine service.renders.engine).run : Job (Except Render.Fault String))
  let prober ← ((Render.findProber service.renders.prober).run : Job (Except Render.Fault String))
  let (status, word) := match engine, prober with
    | .ok _, .ok _ => (200, "ready")
    | .ok _, .error _ => (200, "degraded")
    | .error _, _ => (503, "unavailable")
  pure (.json status (.ofMembers
    [("status", .ofText word),
      ("checks", .ofMembers [("ffmpeg", programStatus engine), ("ffprobe", programStatus prober)])]))

def answerMetrics : Exchange Http.Response := do
  let tally ← get
  pure (.text 200 tally.text)

/-- The answer of an endpoint to one of its methods. -/
def answerEndpoint (service : Service) (request : Http.Request) : Endpoint → Exchange Http.Response
  | .render segment => service.answerRender segment request
  | .health => answerHealth
  | .readiness => service.answerReadiness
  | .metrics => answerMetrics

def endpoint (service : Service) (request : Http.Request) : Option Endpoint :=
  Endpoint.ofPath service.settings.showsMetrics request.path

def dispatch (service : Service) (request : Http.Request) : Exchange Http.Response :=
  if declaresTooMuch service.settings request then pure (.text 413 tooLarge)
  else match service.endpoint request with
    | none => pure (.empty 404)
    | some endpoint =>
      if endpoint.methods.contains request.method then service.answerEndpoint request endpoint
      else pure (.empty 405)

/-- Names the methods of the endpoint in the response to another method. -/
def withAllowed (endpoint : Option Endpoint) (method : String) (response : Http.Response) :
    Http.Response :=
  match endpoint with
  | none => response
  | some endpoint =>
    if endpoint.methods.contains method then response else response.set "allow" endpoint.allow

def securityHeaders : List (String × String) :=
  [("x-content-type-options", "nosniff"), ("x-frame-options", "DENY"),
    ("strict-transport-security", "max-age=31536000; includeSubDomains"),
    ("referrer-policy", "strict-origin-when-cross-origin"),
    ("cross-origin-resource-policy", "same-origin"), ("x-permitted-cross-domain-policies", "none")]

def identityHeader : String := "x-request-id"

/-- The longest name of a request that is taken over from a client, in bytes. -/
def longestIdentity : Nat := 128

/-- The name that a client gives its request, unless it is empty, too long or not readable. -/
def givenIdentity (request : Http.Request) : Option String :=
  (request.readable? identityHeader).filter fun name =>
    !name.isEmpty && name.utf8ByteSize ≤ longestIdentity

/-- The name of a request: what the client calls it, or a new one. -/
def identity (request : Http.Request) : Job String :=
  match givenIdentity request with
  | some name => pure name
  | none => Job.ask .freshId

/-- The answer, and the counts of the service after it. -/
def counted (service : Service) (request : Http.Request) : Exchange Http.Response := do
  modify Metrics.Tally.requestStarted
  let response ← service.dispatch request
  modify fun tally => tally.requestEnded.answered request.method request.path response.status
  pure response

/-- A response without its content, where an endpoint was asked only for its headers. What is told
without an endpoint, or by one that has no such method, keeps its content. -/
def withoutBody (endpoint : Option Endpoint) (method : String) (response : Http.Response) :
    Http.Response :=
  if method = "HEAD" ∧ endpoint.any fun endpoint => endpoint.methods.contains method then
    { response with body := "" }
  else response

def serve (service : Service) (request : Http.Request) : Exchange Http.Response := do
  let sharing := Http.Sharing.ofOrigins service.settings.origins
  let origin := request.header? "origin"
  let endpoint := service.endpoint request
  if request.method = "OPTIONS" then
    pure (withAllowed endpoint request.method (sharing.preflight origin))
  else do
    let name ← (identity request : Job String)
    let response ← service.counted request
    let response := (response.setAll securityHeaders).set identityHeader name
    let response := response.setAll (sharing.headers origin)
    pure (withoutBody endpoint request.method (withAllowed endpoint request.method response))

end Service

end Montage
