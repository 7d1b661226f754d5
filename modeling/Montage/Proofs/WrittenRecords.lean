import Mathlib.Data.List.Forall2
import Mathlib.Data.List.Pairwise
import Montage.Proofs.JsonPrinted
import Montage.Proofs.JsonRecords

/-! Reading a record from the object that was written of it. The object holds the fields in order under their
declared names and may leave some of them off; no declared name is another name of a different field. -/

namespace Montage.Proofs.WrittenRecords
open Montage.Json Record JsonRecords JsonTokens JsonPrinted

/-- The fields of a record in order, each by its name and with the value that is written of it, if one is. -/
abbrev Entries := List (String × Option Json)

def present (entries : Entries) : List (String × Json) :=
  entries.filterMap fun (name, written) => written.map (name, ·)

/-- Whether a JSON value has a written form and a reader returns a value from it. -/
structure Written (reader : Reader α) (json : Json) (value : α) : Prop where
  read : reader json = .ok value
  whole : isWhole json = true

theorem Written.returned {reader : Reader α} {json : Json} {value : α} (written : Written reader json value) :
    Returns reader json value :=
  returns written.whole written.read

/-- Whether entries are those of some fields, and each has a written form and is one that its field takes. -/
abbrev Suits (fields : List Field) (entries : Entries) : Prop :=
  List.Forall₂ (fun field entry => field.name = entry.1 ∧
    ∀ json ∈ entry.2, field.check json = .ok () ∧ isWhole json = true) fields entries

/-- Reading a record from its entries gives a value: whatever look-up finds the entries, the value is built from it. -/
structure Reads (record : Record α) (entries : Entries) (value : α) : Prop where
  suits : Suits record.fields entries
  built : ∀ lookup : String → Option Json, (∀ entry ∈ entries, lookup entry.1 = entry.2) →
    record.build lookup = .ok value

section Rules
variable {reader : Reader α} {record : Record α} {name : String} {aliases : List String} {entries more : Entries}
  {json : Json} {value : α}

theorem reads_field {defaulted : Bool} {absent : Except Fault α} (written : Written reader json value) :
    Reads (Record.field name aliases reader defaulted absent) [(name, some json)] value where
  suits := by
    refine .cons ⟨rfl, ?_⟩ .nil
    rintro _ ⟨⟩
    simp [written.read, written.whole, Except.map]
  built lookup found := by
    have there : lookup name = some json := found _ List.mem_cons_self
    simp only [Record.field, there, written.read]

/-- A field that is left off when there is no value. -/
theorem reads_part {write : α → Json} {part : Option α} {optional : Bool}
    (written : ∀ value ∈ part, Written (Reader.optional reader) (write value) (some value)) :
    Reads (Record.field name aliases (Reader.optional reader) optional (.ok none)) [(name, part.map write)] part := by
  cases part with
  | some value => exact reads_field (written value rfl)
  | none =>
    refine ⟨.cons ⟨rfl, nofun⟩ .nil, fun lookup found => ?_⟩
    have there : lookup name = none := found _ List.mem_cons_self
    simp only [Record.field, there]

theorem reads_nullable {write : α → Json} {part : Option α}
    (written : ∀ value ∈ part, Written (Reader.optional reader) (write value) (some value)) :
    Reads (Record.nullable name aliases reader) [(name, part.map write)] part :=
  reads_part written

theorem reads_map {make : α → β} (reads : Reads record entries value) : Reads (make <$> record) entries (make value) where
  suits := reads.suits
  built lookup found := by rw [build_map, reads.built lookup found]; rfl

theorem reads_seq {makers : Record (α → β)} {make : α → β} (first : Reads makers entries make)
    (second : Reads record more value) : Reads (makers <*> record) (entries ++ more) (make value) where
  suits := List.rel_append first.suits second.suits
  built lookup found := by
    rw [build_seq, first.built lookup fun entry member => found entry (List.mem_append_left _ member),
      second.built lookup fun entry member => found entry (List.mem_append_right _ member)]
    rfl

end Rules

/-- No field goes by the declared name of another one. -/
abbrev Distinct (fields : List Field) : Prop :=
  fields.Pairwise fun first second => first.goesBy second.name = false ∧ second.goesBy first.name = false

theorem goesBy_self (field : Field) : field.goesBy field.name = true := by
  simp [Field.goesBy]

theorem find?_only {p : α → Bool} {items : List α} {item : α} (member : item ∈ items) (own : p item = true)
    (only : ∀ other ∈ items, p other = true → other = item) : items.find? p = some item := by
  obtain ⟨other, found⟩ := Option.isSome_iff_exists.mp (List.find?_isSome.mpr ⟨item, member, own⟩)
  have holds : p other = true := List.find?_some found
  rw [found, only other (List.mem_of_find?_eq_some found) holds]

section Finding
variable {fields : List Field} (distinct : Distinct fields) {field : Field} (member : field ∈ fields)
include distinct member

private theorem goesBy_only {other : Field} (among : other ∈ fields) (goes : other.goesBy field.name = true) :
    other = field := by
  by_contra apart
  have symmetric : Std.Symm fun first second : Field =>
      first.goesBy second.name = false ∧ second.goesBy first.name = false := ⟨fun _ _ => And.symm⟩
  cases goes.symm.trans (distinct.forall among member apart).1

private theorem find?_field : find? fields field.name = some field :=
  find?_only member (goesBy_self field) fun _ among goes => goesBy_only distinct member among goes

private theorem find?_name : fields.find? (·.name = field.name) = some field := by
  refine find?_only member (decide_eq_true rfl) fun other among same => ?_
  have named : other.name = field.name := of_decide_eq_true same
  exact goesBy_only distinct member among (named ▸ goesBy_self other)

end Finding

section Members
variable {fields rest : List Field} {entries : Entries}

/-- The members as they stand in an object. -/
def keyed (entries : Entries) : List (Option String × Json) :=
  (present entries).map fun (key, value) => (some key, value)

private theorem keyed_none (name : String) (entries : Entries) : keyed ((name, none) :: entries) = keyed entries :=
  rfl

theorem keyed_some (name : String) (json : Json) (entries : Entries) :
    keyed ((name, some json) :: entries) = (some name, json) :: keyed entries :=
  rfl

/-- The members that are written of the last fields are taken, as long as those fields were not seen before. -/
private theorem checkMembers_keyed (distinct : Distinct fields) (within : rest.Sublist fields)
    (suits : Suits rest entries)
    {seen : List String} (fresh : ∀ field ∈ rest, field.name ∉ seen) :
    checkMembers fields seen (keyed entries) = .ok () := by
  induction suits generalizing seen with
  | nil => rfl
  | @cons field entry rest entries first later ih =>
    obtain ⟨name, written⟩ := entry
    obtain ⟨rfl, taken⟩ := first
    have others := (List.sublist_cons_self field rest).trans within
    cases written with
    | none =>
      rw [keyed_none]
      exact ih others fun other member => fresh other (List.mem_cons_of_mem _ member)
    | some json =>
      have unseen : seen.contains field.name = false := by simpa using fresh field List.mem_cons_self
      rw [keyed_some, checkMembers, find?_field distinct (within.subset List.mem_cons_self)]
      simp only [unseen, Bool.false_eq_true, if_false, (taken json rfl).1]
      refine ih others fun other among => List.not_mem_cons_of_ne_of_not_mem (fun same => ?_) ?_
      · have strange := (List.rel_of_pairwise_cons (distinct.sublist within) among).1
        rw [same, goesBy_self] at strange
        cases strange
      · exact fresh other (List.mem_cons_of_mem _ among)

/-- What a member is looked up by. -/
def isOf (field : Field) (member : Option String × Json) : Bool :=
  member.1.any field.goesBy

private theorem find?_strange {field : Field} (suits : Suits rest entries)
    (strange : ∀ other ∈ rest, field.goesBy other.name = false) :
    (keyed entries).find? (isOf field) = none := by
  induction suits with
  | nil => rfl
  | @cons other entry rest entries first later ih =>
    obtain ⟨name, written⟩ := entry
    obtain ⟨rfl, -⟩ := first
    have behind := ih fun other member => strange other (List.mem_cons_of_mem _ member)
    cases written with
    | none => exact behind
    | some json =>
      have apart : isOf field (some other.name, json) = false := strange other List.mem_cons_self
      rw [keyed_some, List.find?_cons, apart]
      exact behind

/-- Each entry is found by its field. -/
private theorem find?_keyed (distinct : Distinct fields) (suits : Suits fields entries) : ∀ entry ∈ entries,
    ∃ field ∈ fields, field.name = entry.1 ∧ ((keyed entries).find? (isOf field)).map (·.2) = entry.2 := by
  induction suits with
  | nil => nofun
  | @cons field entry fields entries first later ih =>
    obtain ⟨name, written⟩ := entry
    obtain ⟨rfl, -⟩ := first
    obtain ⟨apart, others⟩ := List.pairwise_cons.mp distinct
    rintro entry (_ | ⟨_, member⟩)
    · refine ⟨field, List.mem_cons_self, rfl, ?_⟩
      cases written with
      | none => rw [keyed_none, find?_strange later fun other member => (apart other member).1]; rfl
      | some json =>
        have own : isOf field (some field.name, json) = true := goesBy_self field
        rw [keyed_some, List.find?_cons, own]
        rfl
    · obtain ⟨other, among, named, found⟩ := ih others entry member
      refine ⟨other, List.mem_cons_of_mem _ among, named, ?_⟩
      cases written with
      | none => exact found
      | some json =>
        have strange : isOf other (some field.name, json) = false := (apart other among).2
        rw [keyed_some, List.find?_cons, strange]
        exact found

private theorem keyed_whole (suits : Suits fields entries) : membersWhole (keyed entries) = true := by
  induction suits with
  | nil => rfl
  | @cons field entry fields entries first later ih =>
    obtain ⟨name, written⟩ := entry
    cases written with
    | none => exact ih
    | some json =>
      rw [keyed_some, membersWhole, (first.2 json rfl).2, ih]
      rfl

end Members

/-- A record is read from what is written of it. -/
theorem written_record {record : Record α} {entries : Entries} {value : α} {title : String}
    (distinct : Distinct record.fields) (reads : Reads record entries value) :
    Written (record.reader title) (.ofMembers (present entries)) value where
  read := by
    have checked := checkMembers_keyed distinct (List.Sublist.refl _) reads.suits (fun _ _ => List.not_mem_nil)
    have looked_up : ∀ entry ∈ entries, memberOf record.fields (keyed entries) entry.1 = entry.2 := by
      intro entry member
      obtain ⟨field, among, named, found⟩ := find?_keyed distinct reads.suits entry member
      rw [memberOf, ← named, find?_name distinct among]
      exact found
    exact (reader_object checked).trans (reads.built _ looked_up)
  whole := keyed_whole reads.suits

theorem present_nil : present [] = [] :=
  rfl

theorem present_some (name : String) (json : Json) (rest : Entries) :
    present ((name, some json) :: rest) = (name, json) :: present rest :=
  rfl

theorem present_part (name : String) (write : α → Json) (part : Option α) (rest : Entries) :
    present ((name, part.map write) :: rest) = (part.toList.map fun value => (name, write value)) ++ present rest := by
  cases part <;> rfl

section Parts
variable {reader : Reader α} {write : α → Json}

theorem written_text (value : String) : Written Reader.text (.ofText value) value :=
  ⟨rfl, rfl⟩

theorem written_flag (value : Bool) : Written Reader.flag (.boolean value) value :=
  ⟨rfl, rfl⟩

theorem written_word64 (value : UInt64) (kind : String) : Written (Reader.word64 kind) (.ofNat value.toNat) value :=
  ⟨word64_ofNat value kind, rfl⟩

theorem written_word32 (value : UInt32) : Written Reader.word32 (.ofNat value.toNat) value where
  read := by
    have small := value.toNat_lt
    rw [Json.ofNat, Reader.word32, natural_number (wordValue?_ofInt (Nat.lt_trans small (by decide))) small]
    simp [Except.map]
  whole := rfl

theorem written_word8 (value : UInt8) : Written Reader.word8 (.ofNat value.toNat) value where
  read := by
    have small := value.toNat_lt
    rw [Json.ofNat, Reader.word8, natural_number (wordValue?_ofInt (Nat.lt_trans small (by decide))) small]
    simp [Except.map]
  whole := rfl

theorem ofText_some (value : String) : Json.ofText value ≠ .null :=
  nofun

theorem ofNat_some (value : Nat) : Json.ofNat value ≠ .null :=
  nofun

theorem ofMembers_some (members : List (String × Json)) : Json.ofMembers members ≠ .null :=
  nofun

theorem written_some {json : Json} {value : α} (some_value : json ≠ .null) (written : Written reader json value) :
    Written (Reader.optional reader) json (some value) where
  read := by
    unfold Reader.optional
    split
    · exact absurd rfl some_value
    · rw [written.read]
      rfl
  whole := written.whole

theorem written_option {part : Option α}
    (written : ∀ value ∈ part, Written (Reader.optional reader) (write value) (some value)) :
    Written (Reader.optional reader) (.ofOption write part) part := by
  cases part with
  | none => exact ⟨rfl, rfl⟩
  | some value => exact written value rfl

private theorem readItems_map {values : List α} (written : ∀ value ∈ values, Written reader (write value) value)
    (index : Nat) :
    Reader.readItems reader index (values.map write) = .ok values := by
  induction values generalizing index with
  | nil => rfl
  | cons value rest ih =>
    rw [List.map_cons, Reader.readItems, (written value List.mem_cons_self).read]
    simp only [ih fun other member => written other (List.mem_cons_of_mem _ member)]
    rfl

private theorem areWhole_map {values : List α} (written : ∀ value ∈ values, Written reader (write value) value) :
    areWhole (values.map write) = true := by
  induction values with
  | nil => rfl
  | cons value rest ih =>
    rw [List.map_cons, areWhole, (written value List.mem_cons_self).whole,
      ih fun other member => written other (List.mem_cons_of_mem _ member)]
    rfl

theorem written_list {values : List α} (written : ∀ value ∈ values, Written reader (write value) value) :
    Written (Reader.list reader) (.ofList write values) values where
  read := by simp only [Json.ofList, Reader.list, readItems_map written, if_true]
  whole := areWhole_map written

end Parts

end Montage.Proofs.WrittenRecords
