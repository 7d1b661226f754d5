import Montage.Json.Printer
import Montage.Text.Quoted

/-! Why a text cannot be read as the value that was asked for. -/

namespace Montage.Json

/-- What stands in place of the expected value. -/
inductive Found where
  | null
  | boolean (value : Bool)
  | integer (value : Int)
  | double (value : Float)
  | text (value : String)
  | list
  | object
  deriving DecidableEq

/-- A value of an unsuitable shape. -/
inductive Mismatch where
  | wrongKind (found : Found) (expected : String)
  | outOfRange (found : Found) (expected : String)
  | missingField (field : String)
  | duplicateField (field : String)
  | unknownVariant (variant : String) (allowed : List String)
  /-- A record given as a list with too few items. -/
  | tooShort (count : Nat) (record : String) (fields : Nat)
  /-- A string that is refused for a reason of its own. -/
  | refused (reason : String)
  deriving DecidableEq

/-- One step on the way to a value: a key, as it was written, or an index. -/
inductive Step where
  | key (name : String)
  | item (index : Nat)
  deriving DecidableEq

/-- Either the text is no JSON, or it is and a value in it has an unsuitable shape. -/
inductive Fault where
  | malformed
  | mismatch (path : List Step) (problem : Mismatch)
  deriving DecidableEq

/-- The found value in words. A double shows the numeral that JSON has for it. -/
def Found.describe : Found → String
  | .null => "null"
  | .boolean value => "boolean `" ++ (if value then "true" else "false") ++ "`"
  | .integer value => "integer `" ++ toString value ++ "`"
  | .double value => "floating point `" ++ (Json.ofDouble value).print ++ "`"
  | .text value => "string " ++ Text.quoted value
  | .list => "sequence"
  | .object => "map"

def describeAllowed (allowed : List String) : String :=
  match allowed.map fun name => "`" ++ name ++ "`" with
  | [] => "there are no variants"
  | [only] => "expected " ++ only
  | [first, second] => "expected " ++ first ++ " or " ++ second
  | many => "expected one of " ++ ", ".intercalate many

def Mismatch.message : Mismatch → String
  | .wrongKind found expected => "invalid type: " ++ found.describe ++ ", expected " ++ expected
  | .outOfRange found expected => "invalid value: " ++ found.describe ++ ", expected " ++ expected
  | .missingField field => "missing field `" ++ field ++ "`"
  | .duplicateField field => "duplicate field `" ++ field ++ "`"
  | .unknownVariant variant allowed =>
    "unknown variant `" ++ variant ++ "`, " ++ describeAllowed allowed
  | .tooShort count record fields =>
    "invalid length " ++ toString count ++ ", expected struct " ++ record ++ " with " ++
      toString fields ++ (if fields = 1 then " element" else " elements")
  | .refused reason => reason

/-- A path in words: keys after points, indices in brackets. -/
def describePath : List Step → String
  | [] => ""
  | .key name :: rest => name ++ continued rest
  | .item index :: rest => "[" ++ toString index ++ "]" ++ continued rest
where
  continued : List Step → String
    | [] => ""
    | .key name :: rest => "." ++ name ++ continued rest
    | .item index :: rest => "[" ++ toString index ++ "]" ++ continued rest

def Fault.under (step : Step) : Fault → Fault
  | .malformed => .malformed
  | .mismatch path problem => .mismatch (step :: path) problem

end Montage.Json
