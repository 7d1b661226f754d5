import Montage.Json.Basic

/-! Writing JSON: on one line without blanks, or one member or item a line. -/

namespace Montage

/-- The text of a number. An exponent always has a sign. -/
def Numeral.print (numeral : Numeral) : List Char :=
  Number.signOf numeral.negative ++ Number.digitsOf numeral.whole ++
    (if numeral.fraction.isEmpty then [] else '.' :: numeral.fraction) ++
    match numeral.exponent with
    | none => []
    | some power => 'e' :: (if power < 0 then '-' else '+') :: Number.digitsOf power.natAbs

namespace Json

def hexLetter (n : Nat) : Char :=
  (Nat.toDigits 16 n).headD '0'

/-- A character inside a string. Quote, backslash and controls are escaped, and nothing else. -/
def escapedChar (c : Char) : List Char :=
  match c with
  | '"' => ['\\', '"']
  | '\\' => ['\\', '\\']
  | '\x08' => ['\\', 'b']
  | '\x0c' => ['\\', 'f']
  | '\n' => ['\\', 'n']
  | '\r' => ['\\', 'r']
  | '\t' => ['\\', 't']
  | c =>
    if c < ' ' then ['\\', 'u', '0', '0', hexLetter (c.toNat / 16), hexLetter (c.toNat % 16)]
    else [c]

def printText (value : String) : List Char :=
  '"' :: (value.toList.flatMap escapedChar ++ ['"'])

/-- A string that stands for no text has no written form; it is written as the empty one. -/
def printText? (value : Option String) : List Char :=
  printText (value.getD "")

mutual

/-- The text of a value on one line. An object without its first key is written as the empty one. -/
def printChars : Json → List Char
  | .null | .broken => "null".toList
  | .boolean value => if value then "true".toList else "false".toList
  | .number value => value.print
  | .text value => printText? value
  | .list items _ => '[' :: (printItems items ++ [']'])
  | .object members _ => '\x7b' :: (printMembers members ++ ['\x7d'])
  | .keyless _ => ['\x7b', '\x7d']

def printItems : List Json → List Char
  | [] => []
  | [item] => printChars item
  | item :: rest => printChars item ++ ',' :: printItems rest

def printMembers : List (Option String × Json) → List Char
  | [] => []
  | [(key, value)] => printText? key ++ ':' :: printChars value
  | (key, value) :: rest => printText? key ++ ':' :: printChars value ++ ',' :: printMembers rest

end

def print (value : Json) : String :=
  String.ofList value.printChars

def newLine (depth : Nat) : List Char :=
  '\n' :: List.replicate (2 * depth) ' '

mutual

/-- The text of a value over several lines, each container at two more blanks than the one around
it. Empty containers stay on one line. -/
def prettyChars (depth : Nat) : Json → List Char
  | .list [] _ => ['[', ']']
  | .object [] _ | .keyless _ => ['\x7b', '\x7d']
  | .list items _ => '[' :: (prettyItems (depth + 1) items ++ newLine depth ++ [']'])
  | .object members _ => '\x7b' :: (prettyMembers (depth + 1) members ++ newLine depth ++ ['\x7d'])
  | .null | .broken => "null".toList
  | .boolean value => if value then "true".toList else "false".toList
  | .number value => value.print
  | .text value => printText? value

def prettyItems (depth : Nat) : List Json → List Char
  | [] => []
  | [item] => newLine depth ++ prettyChars depth item
  | item :: rest => newLine depth ++ prettyChars depth item ++ ',' :: prettyItems depth rest

def prettyMembers (depth : Nat) : List (Option String × Json) → List Char
  | [] => []
  | [(key, value)] => newLine depth ++ printText? key ++ ':' :: ' ' :: prettyChars depth value
  | (key, value) :: rest =>
    newLine depth ++ printText? key ++ ':' :: ' ' :: prettyChars depth value ++
      ',' :: prettyMembers depth rest

end

/-- The text of a value with a line for each member and item. -/
def pretty (value : Json) : String :=
  String.ofList (value.prettyChars 0)

end Json

end Montage
