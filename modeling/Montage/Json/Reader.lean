import Montage.Json.Token

/-! Reading a JSON value from its tokens. The reader keeps the containers that are still open on a
stack and takes one token at a time; where the tokens break off, the open containers are left
unclosed around what they hold so far. -/

namespace Montage.Json

/-- An open container that waits for the value being read. What it holds already is in reverse. -/
inductive Frame where
  | item (done : List Json)
  | member (done : List (Option String × Json)) (key : Option String)

/-- What may come next. -/
inductive Position where
  | value
  /-- The first item of a list, or its end. -/
  | firstItem
  /-- A key; an object may end here only before its first member. -/
  | key (done : List (Option String × Json)) (first : Bool)
  | colon (done : List (Option String × Json)) (key : Option String)
  /-- After a whole value: a comma or the end of the container around it. -/
  | after (value : Json)

def unclosed (stack : List Frame) (value : Json) : Json :=
  stack.foldl (fun inner frame => match frame with
    | .item done => .list (inner :: done).reverse false
    | .member done key => .object ((key, inner) :: done).reverse false) value

/-- A value by its first token, as far as that tells: a container is only begun. -/
def begun : Token → Option Json
  | .openList => some (.list [] false)
  | .openObject => some (.object [] false)
  | .null => some .null
  | .boolean value => some (.boolean value)
  | .number value => some (.number value)
  | .text value => some (.text value)
  | .closeList | .closeObject | .colon | .comma | .bad => none

/-- The value that was begun where the tokens break off. -/
def abandoned (stack : List Frame) : Position → Json
  | .value | .firstItem => unclosed stack .broken
  | .key done _ => unclosed stack (.object done.reverse false)
  | .colon done key => unclosed stack (.object ((key, .broken) :: done).reverse false)
  | .after value => unclosed stack value

/-- Reads one value. The second component holds the tokens after it. -/
def read (stack : List Frame) (position : Position) (tokens : List Token) : Json × List Token :=
  match stack, position, tokens with
  | [], .after value, tokens => (value, tokens)
  | stack, position, [] => (abandoned stack position, [])
  | .item done :: outer, .after value, .comma :: rest => read (.item (value :: done) :: outer) .value rest
  | .item done :: outer, .after value, .closeList :: rest =>
    read outer (.after (.list (value :: done).reverse true)) rest
  | .member done key :: outer, .after value, .comma :: rest =>
    read outer (.key ((key, value) :: done) false) rest
  | .member done key :: outer, .after value, .closeObject :: rest =>
    read outer (.after (.object ((key, value) :: done).reverse true)) rest
  | .item done :: outer, .firstItem, .closeList :: rest =>
    read outer (.after (.list done.reverse true)) rest
  | stack, .key done _, .text key :: rest => read stack (.colon done key) rest
  | stack, .key done true, .closeObject :: rest => read stack (.after (.object done.reverse true)) rest
  | stack, .colon done key, .colon :: rest => read (.member done key :: stack) .value rest
  | stack, position@(.value), token :: rest
  | stack, position@(.firstItem), token :: rest =>
    match token with
    | .openList => read (.item [] :: stack) .firstItem rest
    | .openObject => read stack (.key [] true) rest
    | .null => read stack (.after .null) rest
    | .boolean value => read stack (.after (.boolean value)) rest
    | .number value => read stack (.after (.number value)) rest
    | .text value => read stack (.after (.text value)) rest
    | _ => (abandoned stack position, [])
  | stack, position@(.key _ true), token :: _ =>
    match begun token with
    | some value => (unclosed stack (.keyless value), [])
    | none => (abandoned stack position, [])
  | stack, position, _ :: _ => (abandoned stack position, [])
  termination_by structural tokens

/-- The value at the start of a text, and whether nothing but blanks follows it. -/
def ofSymbols (symbols : Symbols) : Json × Bool :=
  let (value, rest) := read [] .value (tokens symbols)
  (value, rest.isEmpty)

end Montage.Json
