import Montage.Json.Decode

/-! Records: values with named fields. A record is read from an object, where each field may go by
several names and undeclared members are skipped, or from a list of its fields in order. -/

namespace Montage.Json

/-- What reading needs to know of a field: its declared name and the other names it goes by, which
values suit it, and whether a list may leave it off at the end. -/
structure Field where
  name : String
  aliases : List String
  check : Json → Except Fault Unit
  defaulted : Bool

/-- Whether a key is one of the names of the field. -/
def Field.goesBy (field : Field) (key : String) : Bool :=
  key = field.name || field.aliases.contains key

/-- A record type: its fields in order, and how to make a record from a look-up by declared name. -/
structure Record (α : Type) where
  fields : List Field
  build : (String → Option Json) → Except Fault α

namespace Record

instance : Functor Record where
  map make record := { fields := record.fields, build := fun lookup => (record.build lookup).map make }

instance : Seq Record where
  seq first second :=
    { fields := first.fields ++ (second ()).fields
      build := fun lookup =>
        match first.build lookup with
        | .error fault => .error fault
        | .ok make => ((second ()).build lookup).map make }

/-- A field as a record of its own. `absent` is what an object without it gives. -/
def field (name : String) (aliases : List String) (reader : Reader α) (defaulted : Bool)
    (absent : Except Fault α) : Record α where
  fields := [⟨name, aliases, fun json => (reader json).map fun _ => (), defaulted⟩]
  build lookup := match lookup name with
    | some json => reader json
    | none => absent

def required (name : String) (aliases : List String) (reader : Reader α) : Record α :=
  field name aliases reader false (.error (.mismatch [] (.missingField name)))

/-- A field that takes `value` when it is not there. -/
def defaulting (name : String) (aliases : List String) (reader : Reader α) (value : α) : Record α :=
  field name aliases reader true (.ok value)

/-- A field that may hold `null` or be absent from an object, yet not from a list. -/
def nullable (name : String) (aliases : List String) (reader : Reader α) : Record (Option α) :=
  field name aliases (Reader.optional reader) false (.ok none)

def find? (fields : List Field) (key : String) : Option Field :=
  fields.find? (·.goesBy key)

/-- Looks at the members from left to right. A field that comes a second time, under whatever name,
is refused before its value is looked at; the value of an undeclared member only has to end. -/
def checkMembers (fields : List Field) (seen : List String) :
    List (Option String × Json) → Except Fault Unit
  | [] => .ok ()
  | (none, _) :: _ => .error .malformed
  | (some key, value) :: rest =>
    match find? fields key with
    | none => if value.isComplete then checkMembers fields seen rest else .error .malformed
    | some field =>
      if seen.contains field.name then .error (.mismatch [] (.duplicateField field.name))
      else match field.check value with
        | .error fault => .error (fault.under (.key key))
        | .ok () => checkMembers fields (field.name :: seen) rest

/-- Looks at the items of a list beside the fields from left to right. `tooShort` is told the
index of the first field that is missing and has no default. -/
def checkItems (tooShort : Nat → Fault) (closed : Bool) (index : Nat) :
    List Field → List Json → Except Fault Unit
  | [], [] => if closed then .ok () else .error .malformed
  | [], _ :: _ => .error .malformed
  | field :: fields, [] =>
    if !closed then .error .malformed
    else if field.defaulted then checkItems tooShort closed (index + 1) fields []
    else .error (tooShort index)
  | field :: fields, item :: items =>
    match field.check item with
    | .error fault => .error (fault.under (.item index))
    | .ok () => checkItems tooShort closed (index + 1) fields items

/-- The value of a field among the members of an object. -/
def memberOf (fields : List Field) (members : List (Option String × Json)) (name : String) :
    Option Json :=
  match fields.find? (·.name = name) with
  | none => none
  | some field => (members.find? fun (key, _) => key.any field.goesBy).map (·.2)

/-- The value of a field among the items of a list. -/
def itemOf (fields : List Field) (items : List Json) (name : String) : Option Json :=
  ((fields.zip items).find? fun (field, _) => field.name = name).map (·.2)

/-- Reads a record that goes by `title` in messages. -/
def reader (title : String) (record : Record α) : Reader α
  | .object members closed =>
    match checkMembers record.fields [] members with
    | .error fault => .error fault
    | .ok () =>
      if closed then record.build (memberOf record.fields members) else .error .malformed
  | .list items closed =>
    let tooShort (index : Nat) : Fault := .mismatch [] (.tooShort index title record.fields.length)
    match checkItems tooShort closed 0 record.fields items with
    | .error fault => .error fault
    | .ok () => record.build (itemOf record.fields items)
  | .keyless _ => .error .malformed
  | json => .error (unexpected json ("struct " ++ title))

end Record

end Montage.Json
