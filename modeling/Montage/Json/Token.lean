import Montage.Json.Basic

/-! The tokens of a JSON text. Where no token starts, the list of tokens ends in `bad`. -/

namespace Montage.Json

/-- A text as decoded from bytes: `none` stands for bytes that are no character. -/
abbrev Symbols := List (Option Char)

inductive Token where
  | openList
  | closeList
  | openObject
  | closeObject
  | colon
  | comma
  | null
  | boolean (value : Bool)
  | number (value : Numeral)
  | text (value : Option String)
  | bad
  deriving DecidableEq, Repr

/-- The longest run of digits at the start, and what follows it. -/
def spanDigits : Symbols → List Char × Symbols
  | some c :: rest =>
    if Number.isDigit c then
      let (digits, after) := spanDigits rest
      (c :: digits, after)
    else ([], some c :: rest)
  | symbols => ([], symbols)

theorem spanDigits_length (symbols : Symbols) :
    (spanDigits symbols).1.length + (spanDigits symbols).2.length = symbols.length := by
  induction symbols with
  | nil => rfl
  | cons head rest ih =>
    cases head with
    | none => simp [spanDigits]
    | some c =>
      unfold spanDigits
      split
      · simp only [List.length_cons]; omega
      · simp

/-- The digits after a point, if there is a point; then there has to be a digit. -/
def fractionPart : Symbols → Option (List Char × Symbols)
  | some '.' :: rest =>
    match spanDigits rest with
    | ([], _) => none
    | (digits, after) => some (digits, after)
  | symbols => some ([], symbols)

theorem fractionPart_length {symbols : Symbols} {result : List Char × Symbols}
    (found : fractionPart symbols = some result) : result.2.length ≤ symbols.length := by
  unfold fractionPart at found
  split at found
  · rename_i rest
    have whole := spanDigits_length rest
    split at found
    · simp at found
    · rename_i digits after same
      rw [same] at whole
      simp only [Option.some.injEq] at found
      subst found
      simp only [List.length_cons] at *
      omega
  · simp only [Option.some.injEq] at found
    subst found
    exact Nat.le_refl _

/-- Splits a sign off; the flag says whether it was a minus. -/
def signPart : Symbols → Bool × Symbols
  | some '-' :: rest => (true, rest)
  | some '+' :: rest => (false, rest)
  | symbols => (false, symbols)

theorem signPart_length (symbols : Symbols) : (signPart symbols).2.length ≤ symbols.length := by
  unfold signPart
  split <;> simp

/-- An exponent, if there is the letter for it; then there has to be a digit. -/
def exponentPart : Symbols → Option (Option Int × Symbols)
  | some c :: rest =>
    if c = 'e' ∨ c = 'E' then
      let (negative, unsigned) := signPart rest
      match spanDigits unsigned with
      | ([], _) => none
      | (digits, after) =>
        let size : Int := Number.valueOf digits
        some (some (if negative then -size else size), after)
    else some (none, some c :: rest)
  | symbols => some (none, symbols)

theorem exponentPart_length {symbols : Symbols} {result : Option Int × Symbols}
    (found : exponentPart symbols = some result) : result.2.length ≤ symbols.length := by
  unfold exponentPart at found
  split at found
  · rename_i c rest
    split at found
    · have signed := signPart_length rest
      have whole := spanDigits_length (signPart rest).2
      simp only at found
      split at found
      · simp at found
      · rename_i digits after same
        rw [same] at whole
        simp only [Option.some.injEq] at found
        subst found
        simp only [List.length_cons] at *
        omega
    · simp only [Option.some.injEq] at found
      subst found
      exact Nat.le_refl _
  · simp only [Option.some.injEq] at found
    subst found
    exact Nat.le_refl _

/-- A number without its sign. A leading zero stands alone. -/
def unsignedNumber (negative : Bool) (symbols : Symbols) : Option (Numeral × Symbols) :=
  match spanDigits symbols with
  | ([], _) => none
  | ('0' :: _ :: _, _) => none
  | (digits, after) =>
    match fractionPart after with
    | none => none
    | some (fraction, rest) =>
      match exponentPart rest with
      | none => none
      | some (exponent, rest) => some (⟨negative, Number.valueOf digits, fraction, exponent⟩, rest)

theorem unsignedNumber_length {negative : Bool} {symbols : Symbols} {result : Numeral × Symbols}
    (found : unsignedNumber negative symbols = some result) : result.2.length < symbols.length := by
  unfold unsignedNumber at found
  have whole := spanDigits_length symbols
  split at found
  · simp at found
  · simp at found
  · rename_i digits after some_digit _ same
    rw [same] at whole
    have positive : 0 < digits.length := List.length_pos_iff.2 some_digit
    split at found
    · simp at found
    · rename_i fraction rest cut
      have first := fractionPart_length cut
      split at found
      · simp at found
      · rename_i exponent last tail
        have second := exponentPart_length tail
        simp only [Option.some.injEq] at found
        subst found
        simp only at *
        omega

def hexDigit : Option Char → Option Nat
  | some c =>
    if '0' ≤ c && c ≤ '9' then some (c.toNat - '0'.toNat)
    else if 'a' ≤ c && c ≤ 'f' then some (c.toNat - 'a'.toNat + 10)
    else if 'A' ≤ c && c ≤ 'F' then some (c.toNat - 'A'.toNat + 10)
    else none
  | none => none

/-- The code that four hexadecimal digits write. -/
def hexCode (a b c d : Option Char) : Option Nat :=
  match hexDigit a, hexDigit b, hexDigit c, hexDigit d with
  | some a, some b, some c, some d => some (((a * 16 + b) * 16 + c) * 16 + d)
  | _, _, _, _ => none

/-- A low surrogate in its escaped form, which a high one needs after it. -/
def lowSurrogate : Symbols → Option (Nat × Symbols)
  | some '\\' :: some 'u' :: a :: b :: c :: d :: rest =>
    match hexCode a b c d with
    | some code => if 0xDC00 ≤ code ∧ code ≤ 0xDFFF then some (code, rest) else none
    | none => none
  | _ => none

theorem lowSurrogate_length {symbols : Symbols} {result : Nat × Symbols}
    (found : lowSurrogate symbols = some result) : result.2.length < symbols.length := by
  unfold lowSurrogate at found
  split at found
  · split at found
    · split at found
      · simp only [Option.some.injEq] at found
        subst found
        simp only [List.length_cons]
        omega
      · simp at found
    · simp at found
  · simp at found

/-- The character of an escape by code, and what follows it. A surrogate without its partner stands
for no character. -/
def escapedCode (code : Nat) (rest : Symbols) : Option Char × Symbols :=
  if 0xD800 ≤ code ∧ code ≤ 0xDBFF then
    match lowSurrogate rest with
    | some (low, after) => (some (Char.ofNat (0x10000 + (code - 0xD800) * 0x400 + (low - 0xDC00))), after)
    | none => (none, rest)
  else if 0xDC00 ≤ code ∧ code ≤ 0xDFFF then (none, rest)
  else (some (Char.ofNat code), rest)

theorem escapedCode_length (code : Nat) (rest : Symbols) :
    (escapedCode code rest).2.length ≤ rest.length := by
  unfold escapedCode
  split
  · split
    · rename_i found
      exact Nat.le_of_lt (lowSurrogate_length found)
    · exact Nat.le_refl _
  · split <;> exact Nat.le_refl _

/-- What an escape stands for, given the symbols after the backslash. -/
def escaped : Symbols → Option (Option Char × Symbols)
  | some 'u' :: a :: b :: c :: d :: rest =>
    match hexCode a b c d with
    | some code => some (escapedCode code rest)
    | none => none
  | some '"' :: rest => some (some '"', rest)
  | some '\\' :: rest => some (some '\\', rest)
  | some '/' :: rest => some (some '/', rest)
  | some 'b' :: rest => some (some '\x08', rest)
  | some 'f' :: rest => some (some '\x0c', rest)
  | some 'n' :: rest => some (some '\n', rest)
  | some 'r' :: rest => some (some '\r', rest)
  | some 't' :: rest => some (some '\t', rest)
  | _ => none

theorem escaped_length {symbols : Symbols} {result : Option Char × Symbols}
    (found : escaped symbols = some result) : result.2.length < symbols.length := by
  unfold escaped at found
  split at found
  · split at found
    · rename_i code _
      simp only [Option.some.injEq] at found
      subst found
      have bound := escapedCode_length code
      rename_i rest _ _
      have := bound rest
      simp only [List.length_cons]
      omega
    · simp at found
  all_goals first
    | (simp only [Option.some.injEq] at found
       subst found
       simp)
    | simp at found

/-- The rest of a string after its opening quote. The characters so far are in reverse, or `none`
once something stood for no character. Controls must be escaped. -/
def stringRest (done : Option (List Char)) (symbols : Symbols) : Option (Option String × Symbols) :=
  match symbols with
  | [] => none
  | none :: rest => stringRest none rest
  | some c :: rest =>
    if c = '"' then some (done.map fun chars => String.ofList chars.reverse, rest)
    else if c = '\\' then
      match found : escaped rest with
      | none => none
      | some (unit, after) =>
        have : after.length < rest.length := escaped_length found
        stringRest (match done, unit with
          | some chars, some c => some (c :: chars)
          | _, _ => none) after
    else if c < ' ' then none
    else stringRest (done.map (c :: ·)) rest
  termination_by symbols.length
  decreasing_by all_goals simp_all <;> omega

theorem stringRest_length {done : Option (List Char)} {symbols : Symbols}
    {result : Option String × Symbols} (found : stringRest done symbols = some result) :
    result.2.length < symbols.length := by
  fun_induction stringRest done symbols with
  | case1 => simp at found
  | case2 _ rest ih => have := ih found; simp only [List.length_cons]; omega
  | case3 =>
    simp only [Option.some.injEq] at found
    subst found
    simp
  | case4 => simp at found
  | case5 _ rest _ unit after _ shorter ih =>
    have := ih found
    simp only [List.length_cons]
    omega
  | case6 => simp at found
  | case7 _ c rest _ _ _ ih => have := ih found; simp only [List.length_cons]; omega

/-- The first token of a text that starts with no blank, and what follows it. -/
def firstToken : Symbols → Option (Token × Symbols)
  | some '[' :: rest => some (.openList, rest)
  | some ']' :: rest => some (.closeList, rest)
  | some '\x7b' :: rest => some (.openObject, rest)
  | some '\x7d' :: rest => some (.closeObject, rest)
  | some ':' :: rest => some (.colon, rest)
  | some ',' :: rest => some (.comma, rest)
  | some '"' :: rest => (stringRest (some []) rest).map fun (value, after) => (Token.text value, after)
  | some '-' :: rest => (unsignedNumber true rest).map fun (value, after) => (Token.number value, after)
  | some 'n' :: some 'u' :: some 'l' :: some 'l' :: rest => some (.null, rest)
  | some 't' :: some 'r' :: some 'u' :: some 'e' :: rest => some (.boolean true, rest)
  | some 'f' :: some 'a' :: some 'l' :: some 's' :: some 'e' :: rest => some (.boolean false, rest)
  | symbols => (unsignedNumber false symbols).map fun (value, after) => (Token.number value, after)

theorem firstToken_length {symbols : Symbols} {result : Token × Symbols}
    (found : firstToken symbols = some result) : result.2.length < symbols.length := by
  unfold firstToken at found
  split at found
  case h_7 =>
    obtain ⟨pair, inner, rfl⟩ := Option.map_eq_some_iff.1 found
    have := stringRest_length inner
    simp only [List.length_cons]
    omega
  case h_8 =>
    obtain ⟨pair, inner, rfl⟩ := Option.map_eq_some_iff.1 found
    have := unsignedNumber_length inner
    simp only [List.length_cons]
    omega
  case h_12 =>
    obtain ⟨pair, inner, rfl⟩ := Option.map_eq_some_iff.1 found
    exact unsignedNumber_length inner
  all_goals
    simp only [Option.some.injEq] at found
    subst found
    simp only [List.length_cons]
    omega

def isGap (c : Option Char) : Bool :=
  c = some ' ' || c = some '\n' || c = some '\r' || c = some '\t'

/-- The tokens of a text, up to the first place where none starts. -/
def tokens (symbols : Symbols) : List Token :=
  match symbols with
  | [] => []
  | c :: rest =>
    if isGap c then tokens rest
    else
      match found : firstToken (c :: rest) with
      | none => [.bad]
      | some (token, after) =>
        have : after.length < rest.length + 1 := firstToken_length found
        token :: tokens after
  termination_by symbols.length
  decreasing_by all_goals simp_all

end Montage.Json
