/-! Text that arrives as bytes. Decoding keeps the place of what is no text: it yields a character
for each well-formed sequence and `none` for each maximal part that starts like one but breaks off,
or that can start none. -/

namespace Montage.Text

/-- The second bytes that may follow a first one, and how many more there are after it. Overlong
forms, surrogates and codes beyond the last character are ruled out by the second byte. -/
def secondByte (first : UInt8) : Option (UInt8 × UInt8 × Nat) :=
  if 0xC2 ≤ first && first ≤ 0xDF then some (0x80, 0xBF, 0)
  else if first = 0xE0 then some (0xA0, 0xBF, 1)
  else if first = 0xED then some (0x80, 0x9F, 1)
  else if 0xE1 ≤ first && first ≤ 0xEF then some (0x80, 0xBF, 1)
  else if first = 0xF0 then some (0x90, 0xBF, 2)
  else if 0xF1 ≤ first && first ≤ 0xF3 then some (0x80, 0xBF, 2)
  else if first = 0xF4 then some (0x80, 0x8F, 2)
  else none

def leadingBits (first : UInt8) : Nat :=
  if first < 0xE0 then first.toNat - 0xC0
  else if first < 0xF0 then first.toNat - 0xE0
  else first.toNat - 0xF0

/-- Where decoding stands: between characters, or inside a sequence with the code read so far, the
bounds of the next byte and the number of bytes after it. -/
inductive Decoding where
  | between
  | inside (code : Nat) (low high : UInt8) (after : Nat)

/-- Takes a byte between two characters; the decoded part is in reverse. -/
def decodeFirst (done : List (Option Char)) (byte : UInt8) : Decoding × List (Option Char) :=
  if byte < 0x80 then (.between, some (Char.ofNat byte.toNat) :: done)
  else match secondByte byte with
    | some (low, high, after) => (.inside (leadingBits byte) low high after, done)
    | none => (.between, none :: done)

/-- Takes one byte. A byte that does not fit ends the sequence before it and is looked at anew. -/
def decodeStep : Decoding × List (Option Char) → UInt8 → Decoding × List (Option Char)
  | (.between, done), byte => decodeFirst done byte
  | (.inside code low high after, done), byte =>
    if low ≤ byte && byte ≤ high then
      let code := code * 64 + (byte.toNat - 0x80)
      match after with
      | 0 => (.between, some (Char.ofNat code) :: done)
      | after + 1 => (.inside code 0x80 0xBF after, done)
    else decodeFirst (none :: done) byte

/-- The characters of a byte sequence, with `none` for each part that is no character. -/
def decode (bytes : ByteArray) : List (Option Char) :=
  match bytes.toList.foldl decodeStep (.between, []) with
  | (.between, done) => done.reverse
  | (.inside .., done) => (none :: done).reverse

/-- The text of a byte sequence, with a replacement character for each part that is no text. -/
def lossy (bytes : ByteArray) : String :=
  String.ofList ((decode bytes).map fun c => c.getD '\ufffd')

/-- The text of a byte sequence that is text throughout. -/
def strict? (bytes : ByteArray) : Option String :=
  ((decode bytes).mapM id).map String.ofList

/-- A text as the decoding of some bytes. -/
def decoded (text : String) : List (Option Char) :=
  text.toList.map some

end Montage.Text
