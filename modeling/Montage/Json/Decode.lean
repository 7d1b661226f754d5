import Montage.Json.Fault
import Montage.Json.Reader
import Montage.Text.Utf8

/-! Readers of typed values. Values are looked at in the order of the text, and the first fault
decides: an unsuitable value before a break counts as unsuitable, a break before it as a break. -/

namespace Montage.Json

abbrev Reader (α : Type) := Json → Except Fault α

/-- The value of a numeral if it is an integer that a signed or an unsigned word of 64 bits holds.
Minus zero is none of them. -/
def wordValue? (numeral : Numeral) : Option Int :=
  let value := numeral.integer
  if !numeral.isInteger || (numeral.negative && numeral.whole = 0) then none
  else if Int64.minValue.toInt ≤ value ∧ value < UInt64.size then some value
  else none

/-- What a value is, when it is not the expected one. A value whose own text is faulty is nothing. -/
def found? : Json → Option Found
  | .null => some .null
  | .boolean value => some (.boolean value)
  | .number numeral =>
    match wordValue? numeral with
    | some value => some (.integer value)
    | none => numeral.double?.map .double
  | .text value => value.map .text
  | .list _ _ => some .list
  | .object _ _ | .keyless _ => some .object
  | .broken => none

/-- The fault of a value that is not of the expected kind. -/
def unexpected (json : Json) (expected : String) : Fault :=
  match found? json with
  | some found => .mismatch [] (.wrongKind found expected)
  | none => .malformed

namespace Reader

/-- Reads a double from any number that is not beyond the largest one. -/
def double : Reader Float
  | .number numeral =>
    match numeral.double? with
    | some value => .ok value
    | none => .error .malformed
  | json => .error (unexpected json "f64")

/-- Reads a natural number below `2 ^ bits`. -/
def natural (bits : Nat) (kind : String) : Reader Nat
  | .number numeral =>
    match wordValue? numeral with
    | some value =>
      if 0 ≤ value ∧ value < Nat.pow 2 bits then .ok value.toNat
      else .error (.mismatch [] (.outOfRange (.integer value) kind))
    | none => .error (unexpected (.number numeral) kind)
  | json => .error (unexpected json kind)

def word8 : Reader UInt8 :=
  fun json => (natural 8 "u8" json).map UInt8.ofNat

def word32 : Reader UInt32 :=
  fun json => (natural 32 "u32" json).map UInt32.ofNat

def word64 (kind : String) : Reader UInt64 :=
  fun json => (natural 64 kind json).map UInt64.ofNat

def text : Reader String
  | .text (some value) => .ok value
  | json => .error (unexpected json "a string")

def flag : Reader Bool
  | .boolean value => .ok value
  | json => .error (unexpected json "a boolean")

/-- Reads the absence of a value as `none`. -/
def optional (reader : Reader α) : Reader (Option α)
  | .null => .ok none
  | json => (reader json).map some

/-- Reads items from left to right, the first of which has the given index. -/
def readItems (reader : Reader α) (index : Nat) : List Json → Except Fault (List α)
  | [] => .ok []
  | json :: rest =>
    match reader json with
    | .error fault => .error (fault.under (.item index))
    | .ok value => (readItems reader (index + 1) rest).map (value :: ·)

def list (reader : Reader α) : Reader (List α)
  | .list items closed =>
    match readItems reader 0 items with
    | .error fault => .error fault
    | .ok values => if closed then .ok values else .error .malformed
  | json => .error (unexpected json "a sequence")

end Reader

def decodeText (reader : Reader α) (source : String) : Except Fault α :=
  let (json, ended) := ofSymbols (Text.decoded source)
  match reader json with
  | .error fault => .error fault
  | .ok value => if ended then .ok value else .error .malformed

/-- The value that a whole byte sequence holds. -/
def decodeBytes (reader : Reader α) (source : ByteArray) : Except Fault α :=
  let (json, ended) := ofSymbols (Text.decode source)
  match reader json with
  | .error fault => .error fault
  | .ok value => if ended then .ok value else .error .malformed

/-- The value at the start of a byte sequence, whatever follows it. -/
def decodeLeading (reader : Reader α) (source : ByteArray) : Except Fault α :=
  reader (ofSymbols (Text.decode source)).1

end Montage.Json
