/-! Media types, as `application/json; charset=utf-8`. -/

namespace Montage.Http

/-- A media type. What follows the last plus sign of the subtype is its suffix. -/
structure MediaType where
  kind : String
  subtype : String
  suffix : Option String := none
  deriving DecidableEq, Repr

namespace MediaType

def isTokenChar (c : Char) : Bool :=
  c.isAlphanum || "!#$%&'+-.^_`|~".toList.contains c

/-- Where the reading of parameters stands. -/
inductive Position where
  /-- Before a name, where blanks do not count. -/
  | start
  /-- Inside a name. -/
  | name
  /-- Inside a value; the flag says that nothing of it has been read. -/
  | value (fresh : Bool)
  /-- Inside a value between quotes. -/
  | quoted (fresh : Bool)
  /-- After the closing quote. -/
  | closed
  deriving DecidableEq, Repr

def step : Position → Char → Option Position
  | .start, c => if c = ' ' then some .start else if isTokenChar c then some .name else none
  | .name, c => if c = '=' then some (.value true) else if isTokenChar c then some .name else none
  | .value fresh, c =>
    if c = '"' && fresh then some (.quoted true)
    else if c = ';' && !fresh then some .start
    else if isTokenChar c then some (.value false)
    else none
  | .quoted fresh, c =>
    if c = '"' && !fresh then some .closed
    else if ' ' ≤ c && c ≠ '\x7f' then some (.quoted false)
    else none
  | .closed, c => if c = ';' then some .start else if c = ' ' then some .closed else none

def Position.isEnd : Position → Bool
  | .start | .value _ | .closed => true
  | .name | .quoted _ => false

def areParameters (text : List Char) : Bool :=
  (text.foldlM step .start).any Position.isEnd

/-- A subtype, cut at its last plus sign. A plus sign at the start does not count. -/
def cutSuffix (subtype : List Char) : List Char × Option (List Char) :=
  let suffix := (subtype.reverse.takeWhile (· ≠ '+')).reverse
  let before := subtype.length - suffix.length
  if before ≤ 1 then (subtype, none) else (subtype.take (before - 1), some suffix)

def read (text : String) : Option MediaType :=
  let letters := text.toList.map Char.toLower
  match letters.dropWhile isTokenChar with
  | '/' :: rest =>
    let kind := letters.takeWhile isTokenChar
    let subtype := rest.takeWhile isTokenChar
    let parametersFit := match rest.dropWhile isTokenChar with
      | [] => true
      | c :: parameters => c = ';' && !subtype.isEmpty && areParameters parameters
    if !kind.isEmpty && parametersFit then
      let (subtype, suffix) := cutSuffix subtype
      some ⟨String.ofList kind, String.ofList subtype, suffix.map String.ofList⟩
    else none
  | _ => none

def isJson (type : MediaType) : Bool :=
  type.kind = "application" && (type.subtype = "json" || type.suffix = some "json")

end MediaType

end Montage.Http
