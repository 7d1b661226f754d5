import Montage.Json.Printer

/-! Requests and responses of the hypertext transfer protocol. -/

namespace Montage.Http

/-- A request. The method is compared as it is; names of headers may be written in either case. -/
structure Request where
  method : String
  target : String
  headers : List (String × String) := []
  body : ByteArray := .empty

/-- A response. Names of headers are in small letters. -/
structure Response where
  status : Nat
  headers : List (String × String) := []
  body : String := ""
  deriving DecidableEq

/-- Whether a text may be the value of a header: no control but the tab. -/
def isHeaderValue (text : String) : Bool :=
  text.toList.all fun c => (' ' ≤ c && c ≠ '\x7f') || c = '\t'

/-- Whether the value of a header can be read as text: visible characters of ASCII, blanks, tabs. -/
def isReadable (text : String) : Bool :=
  text.toList.all fun c => (' ' ≤ c && c ≤ '~') || c = '\t'

namespace Request

/-- The first header with a name in small letters. -/
def header? (request : Request) (name : String) : Option String :=
  (request.headers.find? fun (other, _) => other.toLower = name).map (·.2)

/-- The first header with a name, if it can be read as text. -/
def readable? (request : Request) (name : String) : Option String :=
  (request.header? name).filter isReadable

/-- The path of the target, up to a question mark or a number sign. A target may also name scheme
and host before the path, and a host alone has no path. -/
def path (request : Request) : String :=
  let ends (c : Char) : Bool := c = '?' || c = '#'
  let target := request.target.toList
  if target.head? = some '/' || target = ['*'] then String.ofList (target.takeWhile (!ends ·))
  else
    match target.dropWhile (· ≠ ':') with
    | ':' :: '/' :: '/' :: rest =>
      let path := (rest.dropWhile fun c => c ≠ '/' && !ends c).takeWhile (!ends ·)
      if path.isEmpty then "/" else String.ofList path
    | _ => ""

end Request

namespace Response

/-- Sets a header, in place of others with its name. -/
def set (response : Response) (name value : String) : Response :=
  { response with headers := response.headers.filter (·.1 ≠ name) ++ [(name, value)] }

def setAll (response : Response) (headers : List (String × String)) : Response :=
  headers.foldl (fun response (name, value) => response.set name value) response

def empty (status : Nat) : Response :=
  { status }

def text (status : Nat) (body : String) : Response :=
  { status, headers := [("content-type", "text/plain; charset=utf-8")], body }

def json (status : Nat) (body : Json) : Response :=
  { status, headers := [("content-type", "application/json")], body := body.print }

end Response

end Montage.Http
