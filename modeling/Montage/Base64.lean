/-! Bytes written with sixty-four symbols, four for every three bytes. The text is padded to a
multiple of four symbols, and bits that are left over have to be zero. -/

namespace Montage.Base64

/-- Why a text stands for no bytes. Offsets count bytes of the text. -/
inductive Fault where
  | symbol (byte : UInt8) (offset : Nat)
  | length (count : Nat)
  | padding
  | lastSymbol (byte : UInt8) (offset : Nat)
  deriving DecidableEq, Repr

def Fault.message : Fault → String
  | symbol byte offset => "Invalid symbol " ++ toString byte.toNat ++ ", offset " ++ toString offset ++ "."
  | length count => "Invalid input length: " ++ toString count
  | padding => "Invalid padding"
  | lastSymbol byte offset =>
    "Invalid last symbol " ++ toString byte.toNat ++ ", offset " ++ toString offset ++ "."

def pad : UInt8 := 0x3D

/-- The six bits of a symbol. -/
def value? (byte : UInt8) : Option Nat :=
  if 0x41 ≤ byte && byte ≤ 0x5A then some (byte.toNat - 0x41)
  else if 0x61 ≤ byte && byte ≤ 0x7A then some (byte.toNat - 0x61 + 26)
  else if 0x30 ≤ byte && byte ≤ 0x39 then some (byte.toNat - 0x30 + 52)
  else if byte = 0x2B then some 62
  else if byte = 0x2F then some 63
  else none

/-- The values of symbols up to the first one that has none. -/
def values (offset : Nat) : List UInt8 → Except Fault (List Nat)
  | [] => .ok []
  | byte :: rest =>
    match value? byte with
    | none => .error (.symbol byte offset)
    | some value => (values (offset + 1) rest).map (value :: ·)

/-- The whole bytes of a group of two to four values, and the bits left over. -/
def bytesOf : List Nat → List UInt8 × Nat
  | [a, b] => ([.ofNat (a * 4 + b / 16)], b % 16)
  | [a, b, c] => ([.ofNat (a * 4 + b / 16), .ofNat (b % 16 * 16 + c / 4)], c % 4)
  | [a, b, c, d] =>
    ([.ofNat (a * 4 + b / 16), .ofNat (b % 16 * 16 + c / 4), .ofNat (c % 4 * 64 + d)], 0)
  | _ => ([], 0)

/-- The last group. Padding may only follow two or three symbols, and nothing may follow it. -/
def decodeLast (offset : Nat) (group : List UInt8) : Except Fault (List UInt8) :=
  let symbols := group.takeWhile (· ≠ pad)
  let padding := group.drop symbols.length
  match values offset symbols with
  | .error fault => .error fault
  | .ok values =>
    if !padding.isEmpty && (symbols.length < 2 || padding.any (· ≠ pad)) then
      .error (.symbol pad (offset + symbols.length))
    else if symbols.length < 2 then .error (.length (offset + symbols.length))
    else if group.length ≠ 4 then .error .padding
    else
      let (bytes, left) := bytesOf values
      if left ≠ 0 then .error (.lastSymbol (symbols.getLast?.getD pad) (offset + symbols.length - 1))
      else .ok bytes

/-- The groups of four symbols in order; the last group may be shorter. -/
def decodeGroups (offset : Nat) (text : List UInt8) : Except Fault (List UInt8) :=
  match text with
  | [] => .ok []
  | a :: b :: c :: d :: next :: rest =>
    match values offset [a, b, c, d] with
    | .error fault => .error fault
    | .ok values =>
      (decodeGroups (offset + 4) (next :: rest)).map ((bytesOf values).1 ++ ·)
  | last => decodeLast offset last

/-- The bytes of a text. A symbol too many at the end, if it has no value, is found first. -/
def decode (text : List UInt8) : Except Fault (List UInt8) :=
  match text.length % 4, text.getLast? with
  | 1, some last =>
    if last ≠ pad ∧ (value? last).isNone then .error (.symbol last (text.length - 1))
    else decodeGroups 0 text
  | _, _ => decodeGroups 0 text

end Montage.Base64
