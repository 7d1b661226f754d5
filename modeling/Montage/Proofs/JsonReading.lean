import Montage.Json.Decode
import Montage.Proofs.JsonTokens
import Montage.Proofs.TextDecode

/-! Reading what was written. A value that has a written form is read back from it whole, and nothing of
the text is left over. -/

namespace Montage.Proofs.JsonReading
open Montage.Json JsonTokens

/-- Where a value is read that is not the end of a list. -/
def Expects (position : Position) : Prop :=
  position = .value ∨ position = .firstItem

/-- What the first token of a value tells, wherever a value is read. -/
theorem read_first {stack : List Frame} {position : Position} (expects : Expects position) (token : Token)
    (opens : token ≠ .closeList) (rest : List Token) :
    read stack position (token :: rest) = match token with
      | .openList => read (.item [] :: stack) .firstItem rest
      | .openObject => read stack (.key [] true) rest
      | .null => read stack (.after .null) rest
      | .boolean value => read stack (.after (.boolean value)) rest
      | .number value => read stack (.after (.number value)) rest
      | .text value => read stack (.after (.text value)) rest
      | _ => (abandoned stack position, []) := by
  rcases expects with rfl | rfl
  · rcases stack with _ | ⟨_ | _, outer⟩ <;> cases token <;> rfl
  · rcases stack with _ | ⟨_ | _, outer⟩ <;> cases token <;> first | rfl | exact absurd rfl opens

private theorem read_member {stack : List Frame} (done : List (Option String × Json)) (first : Bool)
    (key : Option String)
    (rest : List Token) :
    read stack (.key done first) (.text key :: .colon :: rest) = read (.member done key :: stack) .value rest := by
  rcases stack with _ | ⟨_ | _, outer⟩ <;> cases first <;> rfl

mutual

theorem read_spell (json : Json) (whole : isWhole json = true) {stack : List Frame} {position : Position}
    (expects : Expects position) (rest : List Token) :
    read stack position (spell json ++ rest) = read stack (.after json) rest := by
  cases json with
  | null => exact read_first expects .null nofun rest
  | boolean value => exact read_first expects (.boolean value) nofun rest
  | number value => exact read_first expects (.number value) nofun rest
  | text value => exact read_first expects (.text value) nofun rest
  | list items closed =>
    obtain ⟨rfl, items_whole⟩ := Bool.and_eq_true_iff.mp whole
    rw [spell, List.cons_append, List.append_assoc, read_first expects .openList nofun]
    cases items with
    | nil => rfl
    | cons item others => exact read_items (item :: others) items_whole (List.cons_ne_nil _ _) [] (.inr rfl) rest
  | object members closed =>
    obtain ⟨rfl, members_whole⟩ := Bool.and_eq_true_iff.mp whole
    rw [spell, List.cons_append, List.append_assoc, read_first expects .openObject nofun]
    cases members with
    | nil => rcases stack with _ | ⟨_ | _, outer⟩ <;> rfl
    | cons member others => exact read_members (member :: others) members_whole (List.cons_ne_nil _ _) [] true rest
  | keyless value => cases whole
  | broken => cases whole

theorem read_items (items : List Json) (whole : areWhole items = true) (some_item : items ≠ []) {outer : List Frame}
    (done : List Json) {position : Position} (expects : Expects position) (rest : List Token) :
    read (.item done :: outer) position (spellItems items ++ ([.closeList] ++ rest)) =
      read outer (.after (.list (done.reverse ++ items) true)) rest := by
  -- The items that were read before are on the stack, in reverse.
  match items, whole with
  | [], _ => exact absurd rfl some_item
  | [item], whole =>
    have first := (Bool.and_eq_true_iff.mp whole).1
    rw [spellItems, read_spell item first expects]
    change read outer (.after (.list (item :: done).reverse true)) rest = _
    rw [List.reverse_cons]
  | item :: next :: others, whole =>
    obtain ⟨first, later⟩ := Bool.and_eq_true_iff.mp whole
    have spelled : spellItems (item :: next :: others) = spell item ++ .comma :: spellItems (next :: others) := rfl
    rw [spelled, List.append_assoc, List.cons_append, read_spell item first expects]
    change read (.item (item :: done) :: outer) .value _ = _
    rw [read_items (next :: others) later (List.cons_ne_nil _ _) (item :: done) (.inl rfl)]
    simp

theorem read_members (members : List (Option String × Json)) (whole : membersWhole members = true)
    (some_member : members ≠ []) {stack : List Frame} (done : List (Option String × Json)) (begins : Bool)
    (rest : List Token) :
    read stack (.key done begins) (spellMembers members ++ ([.closeObject] ++ rest)) =
      read stack (.after (.object (done.reverse ++ members) true)) rest := by
  match members, whole with
  | [], _ => exact absurd rfl some_member
  | [(key, value)], whole =>
    have first := (Bool.and_eq_true_iff.mp (Bool.and_eq_true_iff.mp whole).1).2
    rw [spellMembers, List.cons_append, List.cons_append, read_member, read_spell value first (.inl rfl)]
    change read stack (.after (.object ((key, value) :: done).reverse true)) rest = _
    rw [List.reverse_cons]
  | (key, value) :: next :: others, whole =>
    obtain ⟨head, later⟩ := Bool.and_eq_true_iff.mp whole
    have first := (Bool.and_eq_true_iff.mp head).2
    have spelled : spellMembers ((key, value) :: next :: others) =
        .text key :: .colon :: (spell value ++ .comma :: spellMembers (next :: others)) := rfl
    rw [spelled, List.cons_append, List.cons_append, List.append_assoc, List.cons_append, read_member,
      read_spell value first (.inl rfl)]
    change read stack (.key ((key, value) :: done) false) _ = _
    rw [read_members (next :: others) later (List.cons_ne_nil _ _) ((key, value) :: done) false]
    simp

end

/-- What is read from the text of a value is the value, and nothing is left of the text. -/
theorem ofSymbols_pretty (json : Json) (whole : isWhole json = true) :
    ofSymbols (Text.decoded json.pretty) = (json, true) := by
  have ends : Ends [] := trivial
  have spelled := tokens_pretty 0 json whole ends
  have done : read [] .value (spell json ++ []) = (json, []) := read_spell json whole (.inl rfl) []
  have ended : tokens [] = [] := by rw [tokens]
  rw [List.append_nil, ended] at spelled
  rw [ofSymbols, Text.decoded, Json.pretty, String.toList_ofList, spelled, done]
  rfl

theorem decodeBytes_pretty (reader : Reader α) (json : Json) (whole : isWhole json = true) :
    decodeBytes reader json.pretty.toUTF8 = reader json := by
  rw [decodeBytes, TextDecode.decode_toUTF8, ofSymbols_pretty json whole]
  simp only
  cases reader json <;> rfl

end Montage.Proofs.JsonReading
