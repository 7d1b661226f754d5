import Montage.Proofs.JsonReading

/-! Reading what was written on one line. The tokens are those of the text over several lines, so that the same
value is read. -/

namespace Montage.Proofs.JsonPrinted
open Montage.Json JsonTokens JsonReading

private theorem ends_closeList (rest : Symbols) : Ends (some ']' :: rest) :=
  .inr (.inl rfl)

private theorem ends_closeObject (rest : Symbols) : Ends (some '\x7d' :: rest) :=
  .inr (.inr (.inl rfl))

private theorem tokens_named (key : String) (rest : Symbols) :
    tokens ((printText key).map some ++ some ':' :: rest) = .text (some key) :: .colon :: tokens rest := by
  rw [tokens_text, tokens_cons (by decide) rfl]

mutual

/-- The text of a value on one line has its tokens and no other. -/
theorem tokens_print (json : Json) (whole : isWhole json = true) {rest : Symbols} (ends : Ends rest) :
    tokens (json.printChars.map some ++ rest) = spell json ++ tokens rest := by
  cases json with
  | null => exact tokens_cons (by decide) rfl
  | boolean value => cases value <;> exact tokens_cons (by decide) rfl
  | number value => exact tokens_number (List.all_eq_true.mp whole) ends
  | text value =>
    cases value with
    | none => cases whole
    | some value => exact tokens_text value rest
  | list items closed =>
    have items_whole := (Bool.and_eq_true_iff.mp whole).2
    have inner := tokens_printItems items items_whole (ends_closeList rest)
    simp only [printChars, spell, List.map_cons, List.map_nil, List.cons_append, List.nil_append, List.append_assoc,
      List.map_append]
    rw [tokens_cons (by decide) rfl, inner, tokens_cons (by decide) rfl]
  | object members closed =>
    have members_whole := (Bool.and_eq_true_iff.mp whole).2
    have inner := tokens_printMembers members members_whole (ends_closeObject rest)
    simp only [printChars, spell, List.map_cons, List.map_nil, List.cons_append, List.nil_append, List.append_assoc,
      List.map_append]
    rw [tokens_cons (by decide) rfl, inner, tokens_cons (by decide) rfl]
  | keyless value => cases whole
  | broken => cases whole

theorem tokens_printItems (items : List Json) (whole : areWhole items = true) {rest : Symbols} (ends : Ends rest) :
    tokens ((printItems items).map some ++ rest) = spellItems items ++ tokens rest := by
  match items, whole with
  | [], _ => rfl
  | [item], whole => exact tokens_print item (Bool.and_eq_true_iff.mp whole).1 ends
  | item :: next :: others, whole =>
    obtain ⟨first, later⟩ := Bool.and_eq_true_iff.mp whole
    have after := tokens_printItems (next :: others) later ends
    simp only [printItems, spellItems, List.map_append, List.map_cons, List.cons_append, List.append_assoc] at after ⊢
    rw [tokens_print item first (ends_comma _), tokens_comma, after]

theorem tokens_printMembers (members : List (Option String × Json)) (whole : membersWhole members = true)
    {rest : Symbols} (ends : Ends rest) :
    tokens ((printMembers members).map some ++ rest) = spellMembers members ++ tokens rest := by
  match members, whole with
  | [], _ => rfl
  | [(none, value)], whole => cases whole
  | (none, value) :: next :: others, whole => cases whole
  | [(some key, value)], whole =>
    have first := (Bool.and_eq_true_iff.mp (Bool.and_eq_true_iff.mp whole).1).2
    simp only [printMembers, spellMembers, printText?, Option.getD_some, List.map_append, List.map_cons,
      List.cons_append, List.append_assoc]
    rw [tokens_named, tokens_print value first ends]
  | (some key, value) :: next :: others, whole =>
    obtain ⟨head, later⟩ := Bool.and_eq_true_iff.mp whole
    have first := (Bool.and_eq_true_iff.mp head).2
    have after := tokens_printMembers (next :: others) later ends
    simp only [printMembers, spellMembers, printText?, Option.getD_some, List.map_append, List.map_cons,
      List.cons_append, List.append_assoc] at after ⊢
    rw [tokens_named, tokens_print value first (ends_comma _), tokens_comma, after]

end

/-- What is read from the line of a value is the value, and nothing is left of the line. -/
theorem ofSymbols_print (json : Json) (whole : isWhole json = true) :
    ofSymbols (Text.decoded json.print) = (json, true) := by
  have ends : Ends [] := trivial
  have spelled := tokens_print json whole ends
  have done : read [] .value (spell json ++ []) = (json, []) := read_spell json whole (.inl rfl) []
  have ended : tokens [] = [] := by rw [tokens]
  rw [List.append_nil, ended] at spelled
  rw [ofSymbols, Text.decoded, Json.print, String.toList_ofList, spelled, done]
  rfl

/-- Whether a reader returns a value from each of the written forms of a JSON value, as a text and as its bytes. -/
structure Returns (reader : Reader α) (json : Json) (value : α) : Prop where
  line : decodeText reader json.print = .ok value
  lines : decodeText reader json.pretty = .ok value
  lineBytes : decodeBytes reader json.print.toUTF8 = .ok value
  linesBytes : decodeBytes reader json.pretty.toUTF8 = .ok value

theorem returns {reader : Reader α} {json : Json} {value : α} (whole : isWhole json = true)
    (reads : reader json = .ok value) : Returns reader json value where
  line := by rw [decodeText, ofSymbols_print json whole]; simp only [reads]; rfl
  lines := by rw [decodeText, ofSymbols_pretty json whole]; simp only [reads]; rfl
  lineBytes := by rw [decodeBytes, TextDecode.decode_toUTF8, ofSymbols_print json whole]; simp only [reads]; rfl
  linesBytes := (decodeBytes_pretty reader json whole).trans reads

end Montage.Proofs.JsonPrinted
