import Montage.Text.Utf8

/-! Percent signs in paths, each of which stands with two hexadecimal digits for a byte. -/

namespace Montage.Http

def hexValue? (byte : UInt8) : Option UInt8 :=
  if 0x30 ≤ byte && byte ≤ 0x39 then some (byte - 0x30)
  else if 0x41 ≤ byte && byte ≤ 0x46 then some (byte - 0x37)
  else if 0x61 ≤ byte && byte ≤ 0x66 then some (byte - 0x57)
  else none

def percentSign : UInt8 := 0x25

/-- The bytes that a text with percent signs stands for. A percent sign without two digits after it
stands for itself. -/
def percentDecoded : List UInt8 → List UInt8
  | sign :: high :: low :: rest =>
    match hexValue? high, hexValue? low with
    | some high', some low' =>
      if sign = percentSign then (high' * 16 + low') :: percentDecoded rest
      else sign :: percentDecoded (high :: low :: rest)
    | _, _ => sign :: percentDecoded (high :: low :: rest)
  | bytes => bytes

/-- The text that a segment of a path stands for, if its bytes are one. -/
def segmentText? (segment : String) : Option String :=
  Text.strict? ⟨(percentDecoded segment.toUTF8.toList).toArray⟩

end Montage.Http
