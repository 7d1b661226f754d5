import Montage.Json.Printer
import Montage.Json.Token

/-! The tokens of a written JSON value. Whatever its texts hold, each of them is one token, since what
could end a text is escaped in it. -/

namespace Montage.Proofs.JsonTokens
open Montage.Json Montage.Number

theorem valueOf_digitsOf (number : Nat) : valueOf (digitsOf number) = number := by
  have read := @Nat.ofDigitChars_toDigits 10 number (by decide) (by decide)
  rw [Nat.ofDigitChars_eq_foldl] at read
  simpa only [valueOf, digitsOf, digitValue, Nat.mul_comm] using read

theorem digitsOf_digits {number : Nat} : ∀ c ∈ digitsOf number, isDigit c = true := by
  intro c member
  have digit := Nat.isDigit_of_mem_toDigits (by decide) (by decide) member
  simpa [isDigit, Char.isDigit, Char.le_def] using digit

/-- Only zero has a leading zero. -/
theorem digitsOf_lead {number : Nat} (positive : 0 < number) : ∃ c rest, digitsOf number = c :: rest ∧ c ≠ '0' := by
  induction number using Nat.strongRecOn with
  | ind number ih =>
    by_cases small : number < 10
    · refine ⟨number.digitChar, [], Nat.toDigits_of_lt_base small, ?_⟩
      have only : ∀ digit < 10, digit.digitChar = '0' → digit = 0 := by decide
      intro zero
      exact Nat.ne_of_gt positive (only number small zero)
    · obtain ⟨c, rest, digits, lead⟩ := ih (number / 10) (by omega) (by omega)
      refine ⟨c, rest ++ [(number % 10).digitChar], ?_, lead⟩
      rw [digitsOf, Nat.toDigits_of_base_le (by decide) (by omega)]
      change digitsOf (number / 10) ++ _ = _
      rw [digits]
      rfl

/-- No number goes on with the symbols. -/
def Ends : Symbols → Prop
  | [] => True
  | c :: _ => c = some ',' ∨ c = some ']' ∨ c = some '\x7d' ∨ c = some '\n'

private theorem spanDigits_ends {rest : Symbols} (ends : Ends rest) : spanDigits rest = ([], rest) := by
  cases rest with
  | nil => rfl
  | cons c after => rcases ends with rfl | rfl | rfl | rfl <;> rfl

theorem spanDigits_digits {digits : List Char} {rest : Symbols} (all : ∀ c ∈ digits, isDigit c = true)
    (stops : spanDigits rest = ([], rest)) : spanDigits (digits.map some ++ rest) = (digits, rest) := by
  induction digits with
  | nil => exact stops
  | cons c others ih =>
    have later := ih fun d member => all d (List.mem_cons_of_mem c member)
    simp [spanDigits, all c List.mem_cons_self, later]

/-- The sign and the digits of an exponent, if there is one. -/
def exponentText : Option Int → List Char
  | none => []
  | some power => 'e' :: (if power < 0 then '-' else '+') :: digitsOf power.natAbs

private theorem exponentPart_text (exponent : Option Int) {rest : Symbols} (ends : Ends rest) :
    exponentPart ((exponentText exponent).map some ++ rest) = some (exponent, rest) := by
  cases exponent with
  | none =>
    cases rest with
    | nil => rfl
    | cons c after => rcases ends with rfl | rfl | rfl | rfl <;> rfl
  | some power =>
    have digits := spanDigits_digits (@digitsOf_digits power.natAbs) (spanDigits_ends ends)
    have some_digit : digitsOf power.natAbs ≠ [] := Nat.toDigits_ne_nil
    have size := valueOf_digitsOf power.natAbs
    have signed : signPart ((some (if power < 0 then '-' else '+')) :: ((digitsOf power.natAbs).map some ++ rest)) =
        (decide (power < 0), (digitsOf power.natAbs).map some ++ rest) := by
      by_cases negative : power < 0 <;> simp [negative, signPart]
    simp only [exponentText, List.map_cons, List.cons_append, exponentPart, signed, digits, true_or, if_true]
    generalize digitsOf power.natAbs = written at some_digit size
    cases written with
    | nil => exact absurd rfl some_digit
    | cons c others =>
      simp only [size]
      by_cases negative : power < 0
      · simp only [negative, decide_true, if_true]
        rw [show -(power.natAbs : Int) = power by omega]
      · simp only [negative, decide_false, Bool.false_eq_true, if_false]
        rw [show (power.natAbs : Int) = power by omega]

private theorem fractionPart_text {fraction : List Char} {rest : Symbols} (digits : ∀ c ∈ fraction, isDigit c = true)
    (stops : spanDigits rest = ([], rest)) (no_point : fractionPart rest = some ([], rest)) :
    fractionPart ((if fraction.isEmpty then [] else '.' :: fraction).map some ++ rest) = some (fraction, rest) := by
  cases fraction with
  | nil => exact no_point
  | cons c others =>
    have spanned := spanDigits_digits digits stops
    simp only [List.isEmpty_cons, Bool.false_eq_true, if_false, List.map_cons, List.cons_append, fractionPart] at spanned ⊢
    rw [spanned]

private theorem exponentText_stops (exponent : Option Int) {rest : Symbols} (ends : Ends rest) :
    spanDigits ((exponentText exponent).map some ++ rest) = ([], (exponentText exponent).map some ++ rest) ∧
      fractionPart ((exponentText exponent).map some ++ rest) = some ([], (exponentText exponent).map some ++ rest) := by
  cases exponent with
  | some power => exact ⟨rfl, rfl⟩
  | none =>
    cases rest with
    | nil => exact ⟨rfl, rfl⟩
    | cons c after => rcases ends with rfl | rfl | rfl | rfl <;> exact ⟨rfl, rfl⟩

private theorem unsignedNumber_text {numeral : Numeral} {rest : Symbols}
    (digits : ∀ c ∈ numeral.fraction, isDigit c = true)
    (ends : Ends rest) :
    unsignedNumber numeral.negative ((digitsOf numeral.whole ++
      (if numeral.fraction.isEmpty then [] else '.' :: numeral.fraction) ++ exponentText numeral.exponent).map some ++
        rest) = some (numeral, rest) := by
  obtain ⟨stops, no_point⟩ := exponentText_stops numeral.exponent ends
  have fraction := fractionPart_text digits stops no_point
  have exponent := exponentPart_text numeral.exponent ends
  have point_stops : spanDigits ((if numeral.fraction.isEmpty then [] else '.' :: numeral.fraction).map some ++
      ((exponentText numeral.exponent).map some ++ rest)) =
      ([], (if numeral.fraction.isEmpty then [] else '.' :: numeral.fraction).map some ++
        ((exponentText numeral.exponent).map some ++ rest)) := by
    cases numeral.fraction with
    | nil => exact stops
    | cons c others => rfl
  have whole := spanDigits_digits (@digitsOf_digits numeral.whole) point_stops
  have some_digit : digitsOf numeral.whole ≠ [] := Nat.toDigits_ne_nil
  have size := valueOf_digitsOf numeral.whole
  have lead : ∀ c others, digitsOf numeral.whole ≠ '0' :: c :: others := by
    intro c others zero
    by_cases positive : 0 < numeral.whole
    · obtain ⟨first, _, written, apart⟩ := digitsOf_lead positive
      rw [written] at zero
      exact apart (List.cons.inj zero).1
    · rw [Nat.eq_zero_of_not_pos positive] at zero
      cases zero
  simp only [List.map_append, List.append_assoc, unsignedNumber, whole]
  simp only [fraction, exponent, size]

private theorem print_text (numeral : Numeral) : numeral.print = signOf numeral.negative ++ (digitsOf numeral.whole ++
    (if numeral.fraction.isEmpty then [] else '.' :: numeral.fraction) ++ exponentText numeral.exponent) := by
  rw [Numeral.print, List.append_assoc, List.append_assoc, List.append_assoc]
  cases numeral.exponent <;> rfl

private theorem firstToken_digit {c : Char} (digit : isDigit c = true) (rest : Symbols) :
    firstToken (some c :: rest) = (unsignedNumber false (some c :: rest)).map fun (value, after) =>
      (Token.number value, after) := by
  have apart : ∀ other, isDigit other = false → c ≠ other := by
    rintro other no_digit rfl
    cases digit.symm.trans no_digit
  unfold firstToken
  split
  case h_12 => rfl
  all_goals
    next same =>
      exact absurd (Option.some.inj (List.cons.inj same).1) (apart _ (by decide))

private theorem firstToken_minus (rest : Symbols) : firstToken (some '-' :: rest) =
    (unsignedNumber true rest).map fun (value, after) => (Token.number value, after) :=
  rfl

private theorem firstToken_quote (rest : Symbols) : firstToken (some '"' :: rest) =
    (stringRest (some []) rest).map fun (value, after) => (Token.text value, after) :=
  rfl

private theorem firstToken_number {numeral : Numeral} {rest : Symbols}
    (digits : ∀ c ∈ numeral.fraction, isDigit c = true)
    (ends : Ends rest) : firstToken (numeral.print.map some ++ rest) = some (.number numeral, rest) := by
  have read := unsignedNumber_text digits ends
  rw [print_text]
  cases sign : numeral.negative with
  | true =>
    rw [sign] at read
    simp only [signOf, if_true, List.nil_append, List.map_cons, List.cons_append, firstToken_minus, read]
    rfl
  | false =>
    rw [sign] at read
    have some_digit : digitsOf numeral.whole ≠ [] := Nat.toDigits_ne_nil
    obtain ⟨c, others, written⟩ := List.exists_cons_of_ne_nil some_digit
    have digit : isDigit c = true := digitsOf_digits c (by rw [written]; exact List.mem_cons_self)
    rw [written] at read ⊢
    simp only [signOf, Bool.false_eq_true, if_false, List.nil_append, List.cons_append, List.map_cons] at read ⊢
    rw [firstToken_digit digit, read]
    rfl

private theorem hexDigit_letter {n : Nat} (small : n < 16) : hexDigit (some (hexLetter n)) = some n := by
  have all : ∀ n < 16, hexDigit (some (hexLetter n)) = some n := by decide
  exact all n small

private theorem escaped_control {c : Char} (control : c < ' ') (rest : Symbols) :
    escaped (([ 'u', '0', '0', hexLetter (c.toNat / 16), hexLetter (c.toNat % 16)]).map some ++ rest) =
      some (some c, rest) := by
  have small : c.toNat < 32 := control
  have zero : hexDigit (some '0') = some 0 := by decide
  have high : hexDigit (some (hexLetter (c.toNat / 16))) = some (c.toNat / 16) := hexDigit_letter (by omega)
  have low : hexDigit (some (hexLetter (c.toNat % 16))) = some (c.toNat % 16) := hexDigit_letter (by omega)
  have code : ((0 * 16 + 0) * 16 + c.toNat / 16) * 16 + c.toNat % 16 = c.toNat := by omega
  simp only [List.map_cons, List.map_nil, List.cons_append, List.nil_append, escaped, hexCode, zero, high, low, code]
  rw [escapedCode, if_neg (by omega), if_neg (by omega), Char.ofNat_toNat]

/-- However a character is written inside a string, it is read as itself. -/
private theorem stringRest_char (c : Char) (done : List Char) (rest : Symbols) :
    stringRest (some done) ((escapedChar c).map some ++ rest) = stringRest (some (c :: done)) rest := by
  have backslash : ∀ {letters : Symbols} {c : Char} {after : Symbols}, escaped letters = some (some c, after) →
      stringRest (some done) (some '\\' :: letters) = stringRest (some (c :: done)) after := by
    intro letters c after read
    rw [stringRest, if_neg (by decide), if_pos rfl]
    split
    next none => cases read.symm.trans none
    next same =>
      cases read.symm.trans same
      rfl
  unfold escapedChar
  split
  · exact backslash rfl
  · exact backslash rfl
  · exact backslash rfl
  · exact backslash rfl
  · exact backslash rfl
  · exact backslash rfl
  · exact backslash rfl
  next quote slash _ _ _ _ _ =>
    split
    next control => exact backslash (escaped_control control rest)
    next plain =>
      simp only [List.map_cons, List.map_nil, List.cons_append, List.nil_append]
      rw [stringRest, if_neg quote, if_neg slash, if_neg plain]
      rfl

private theorem stringRest_chars (chars done : List Char) (rest : Symbols) :
    stringRest (some done) ((chars.flatMap escapedChar ++ ['"']).map some ++ rest) =
      some (some (String.ofList (done.reverse ++ chars)), rest) := by
  induction chars generalizing done with
  | nil =>
    simp only [List.flatMap_nil, List.nil_append, List.map_cons, List.map_nil, List.cons_append]
    rw [stringRest, if_pos rfl, List.append_nil]
    rfl
  | cons c others ih =>
    rw [List.flatMap_cons, List.append_assoc, List.map_append, List.append_assoc, stringRest_char, ih]
    simp

/-- A text is one token, whatever it holds. -/
private theorem firstToken_text (value : String) (rest : Symbols) :
    firstToken ((printText value).map some ++ rest) = some (.text (some value), rest) := by
  have read := stringRest_chars value.toList [] rest
  simp only [printText, List.map_cons, List.cons_append, firstToken_quote, read]
  simp

theorem tokens_cons {c : Option Char} {rest after : Symbols} {token : Token} (no_gap : isGap c = false)
    (first : firstToken (c :: rest) = some (token, after)) : tokens (c :: rest) = token :: tokens after := by
  rw [tokens, if_neg (by simp [no_gap])]
  split
  next none => cases first.symm.trans none
  next same =>
    cases first.symm.trans same
    rfl

theorem tokens_text (value : String) (rest : Symbols) :
    tokens ((printText value).map some ++ rest) = .text (some value) :: tokens rest := by
  have text := firstToken_text value rest
  rw [printText, List.map_cons, List.cons_append] at text ⊢
  exact tokens_cons (by decide) text

theorem tokens_number {numeral : Numeral} {rest : Symbols} (digits : ∀ c ∈ numeral.fraction, isDigit c = true)
    (ends : Ends rest) : tokens (numeral.print.map some ++ rest) = .number numeral :: tokens rest := by
  have number := firstToken_number digits ends
  have first : ∃ c others, numeral.print = c :: others ∧ isGap (some c) = false := by
    have some_digit : digitsOf numeral.whole ≠ [] := Nat.toDigits_ne_nil
    obtain ⟨c, others, written⟩ := List.exists_cons_of_ne_nil some_digit
    have digit : isDigit c = true := digitsOf_digits c (by rw [written]; exact List.mem_cons_self)
    rw [print_text]
    cases numeral.negative with
    | true => exact ⟨'-', _, rfl, by decide⟩
    | false =>
      refine ⟨c, _, by rw [written]; rfl, ?_⟩
      have apart : ∀ other, isDigit other = false → c ≠ other := by
        rintro other no_digit rfl
        cases digit.symm.trans no_digit
      simp [isGap, apart ' ' (by decide), apart '\n' (by decide), apart '\r' (by decide), apart '\t' (by decide)]
  obtain ⟨c, others, written, no_gap⟩ := first
  rw [written, List.map_cons, List.cons_append] at number ⊢
  exact tokens_cons no_gap number

theorem tokens_newLine (depth : Nat) (rest : Symbols) : tokens ((newLine depth).map some ++ rest) = tokens rest := by
  have blanks : ∀ count, tokens ((List.replicate count ' ').map some ++ rest) = tokens rest := by
    intro count
    induction count with
    | zero => rfl
    | succ count ih =>
      rw [List.replicate_succ, List.map_cons, List.cons_append, tokens, if_pos (by decide)]
      exact ih
  rw [newLine, List.map_cons, List.cons_append, tokens, if_pos (by decide)]
  exact blanks _

mutual

def spell : Json → List Token
  | .null => [.null]
  | .boolean value => [.boolean value]
  | .number value => [.number value]
  | .text value => [.text value]
  | .list items _ => .openList :: (spellItems items ++ [.closeList])
  | .object members _ => .openObject :: (spellMembers members ++ [.closeObject])
  | .keyless _ | .broken => []

def spellItems : List Json → List Token
  | [] => []
  | [item] => spell item
  | item :: rest => spell item ++ .comma :: spellItems rest

def spellMembers : List (Option String × Json) → List Token
  | [] => []
  | [(key, value)] => .text key :: .colon :: spell value
  | (key, value) :: rest => .text key :: .colon :: (spell value ++ .comma :: spellMembers rest)

end

mutual

/-- A value that has a written form of its own: it is whole, and its numbers have digits behind the point. -/
def isWhole : Json → Bool
  | .null | .boolean _ => true
  | .number value => value.fraction.all isDigit
  | .text value => value.isSome
  | .list items closed => closed && areWhole items
  | .object members closed => closed && membersWhole members
  | .keyless _ | .broken => false

def areWhole : List Json → Bool
  | [] => true
  | item :: rest => isWhole item && areWhole rest

def membersWhole : List (Option String × Json) → Bool
  | [] => true
  | (key, value) :: rest => key.isSome && isWhole value && membersWhole rest

end

private theorem ends_newLine (depth : Nat) (text : List Char) (rest : Symbols) :
    Ends ((newLine depth ++ text).map some ++ rest) :=
  .inr (.inr (.inr rfl))

theorem ends_comma (rest : Symbols) : Ends (some ',' :: rest) :=
  .inl rfl

theorem tokens_comma (rest : Symbols) : tokens (some ',' :: rest) = .comma :: tokens rest :=
  tokens_cons (by decide) rfl

private theorem tokens_key (key : String) (rest : Symbols) :
    tokens ((printText key ++ [':', ' ']).map some ++ rest) = .text (some key) :: .colon :: tokens rest := by
  have colon : tokens ([':', ' '].map some ++ rest) = .colon :: tokens rest := by
    change tokens (some ':' :: some ' ' :: rest) = _
    rw [tokens_cons (by decide) rfl, tokens, if_pos (by decide)]
  rw [List.map_append, List.append_assoc, tokens_text, colon]

private theorem tokens_closing {closing : Char} {token : Token} (no_gap : isGap (some closing) = false)
    (first : ∀ rest, firstToken (some closing :: rest) = some (token, rest)) (depth : Nat) (rest : Symbols) :
    tokens ((newLine depth ++ [closing]).map some ++ rest) = token :: tokens rest := by
  rw [List.map_append, List.append_assoc, tokens_newLine]
  exact tokens_cons no_gap (first rest)

mutual

/-- The text of a value has its tokens and no other, as long as what follows does not go on with a number. -/
theorem tokens_pretty (depth : Nat) (json : Json) (whole : isWhole json = true) {rest : Symbols} (ends : Ends rest) :
    tokens ((prettyChars depth json).map some ++ rest) = spell json ++ tokens rest := by
  cases json with
  | null => exact tokens_cons (by decide) rfl
  | boolean value => cases value <;> exact tokens_cons (by decide) rfl
  | number value => exact tokens_number (List.all_eq_true.mp whole) ends
  | text value =>
    cases value with
    | none => cases whole
    | some value => exact tokens_text value rest
  | list items closed =>
    have items_whole := (Bool.and_eq_true_iff.mp whole).2
    have closes : tokens ((newLine depth ++ [']']).map some ++ rest) = .closeList :: tokens rest :=
      tokens_closing (by decide) (fun _ => rfl) depth rest
    have follows : Ends ((newLine depth ++ [']']).map some ++ rest) := ends_newLine depth _ rest
    cases items with
    | nil =>
      change tokens (some '[' :: some ']' :: rest) = _
      rw [tokens_cons (by decide) rfl, tokens_cons (by decide) rfl]
      rfl
    | cons item others =>
      have inner := tokens_prettyItems (depth + 1) (item :: others) items_whole follows
      simp only [prettyChars, spell, List.map_cons, List.cons_append, List.append_assoc, List.map_append] at inner closes ⊢
      rw [tokens_cons (by decide) rfl, inner, closes]
      rfl
  | object members closed =>
    have members_whole := (Bool.and_eq_true_iff.mp whole).2
    have closes : tokens ((newLine depth ++ ['\x7d']).map some ++ rest) = .closeObject :: tokens rest :=
      tokens_closing (by decide) (fun _ => rfl) depth rest
    have follows : Ends ((newLine depth ++ ['\x7d']).map some ++ rest) := ends_newLine depth _ rest
    cases members with
    | nil =>
      change tokens (some '\x7b' :: some '\x7d' :: rest) = _
      rw [tokens_cons (by decide) rfl, tokens_cons (by decide) rfl]
      rfl
    | cons member others =>
      have inner := tokens_prettyMembers (depth + 1) (member :: others) members_whole follows
      simp only [prettyChars, spell, List.map_cons, List.cons_append, List.append_assoc, List.map_append] at inner closes ⊢
      rw [tokens_cons (by decide) rfl, inner, closes]
      rfl
  | keyless value => cases whole
  | broken => cases whole

theorem tokens_prettyItems (depth : Nat) (items : List Json) (whole : areWhole items = true) {rest : Symbols}
    (ends : Ends rest) : tokens ((prettyItems depth items).map some ++ rest) = spellItems items ++ tokens rest := by
  match items, whole with
  | [], _ => rfl
  | [item], whole =>
    have first := (Bool.and_eq_true_iff.mp whole).1
    simp only [prettyItems, spellItems, List.map_append, List.append_assoc]
    rw [tokens_newLine, tokens_pretty depth item first ends]
  | item :: next :: others, whole =>
    obtain ⟨first, later⟩ := Bool.and_eq_true_iff.mp whole
    have after := tokens_prettyItems depth (next :: others) later ends
    simp only [prettyItems, spellItems, List.map_append, List.map_cons, List.cons_append, List.append_assoc] at after ⊢
    rw [tokens_newLine, tokens_pretty depth item first (ends_comma _), tokens_comma, after]

theorem tokens_prettyMembers (depth : Nat) (members : List (Option String × Json)) (whole : membersWhole members = true)
    {rest : Symbols} (ends : Ends rest) :
    tokens ((prettyMembers depth members).map some ++ rest) = spellMembers members ++ tokens rest := by
  match members, whole with
  | [], _ => rfl
  | [(none, value)], whole => cases whole
  | (none, value) :: next :: others, whole => cases whole
  | [(some key, value)], whole =>
    have first := (Bool.and_eq_true_iff.mp (Bool.and_eq_true_iff.mp whole).1).2
    have named := tokens_key key ((prettyChars depth value).map some ++ rest)
    simp only [prettyMembers, spellMembers, printText?, Option.getD_some, List.map_append, List.map_cons, List.map_nil,
      List.cons_append, List.nil_append, List.append_assoc] at named ⊢
    rw [tokens_newLine, named, tokens_pretty depth value first ends]
  | (some key, value) :: next :: others, whole =>
    obtain ⟨head, later⟩ := Bool.and_eq_true_iff.mp whole
    have first := (Bool.and_eq_true_iff.mp head).2
    have after := tokens_prettyMembers depth (next :: others) later ends
    have named := tokens_key key ((prettyChars depth value).map some ++
      (some ',' :: (prettyMembers depth (next :: others)).map some ++ rest))
    simp only [prettyMembers, spellMembers, printText?, Option.getD_some, List.map_append, List.map_cons, List.map_nil,
      List.cons_append, List.nil_append, List.append_assoc] at named after ⊢
    rw [tokens_newLine, named, tokens_pretty depth value first (ends_comma _), tokens_comma, after]

end

end Montage.Proofs.JsonTokens
