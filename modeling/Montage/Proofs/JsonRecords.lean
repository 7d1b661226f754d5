import Montage.Json.Decode
import Montage.Json.Record

/-! How records are read. A property of what each field may hold is carried over to the record that is built
of them, and a whole object is read by looking its fields up. -/

namespace Montage.Proofs.JsonRecords
open Montage.Json Record

theorem build_map (make : α → β) (record : Record α) (lookup : String → Option Json) :
    (make <$> record).build lookup = (record.build lookup).map make :=
  rfl

theorem build_seq (first : Record (α → β)) (second : Record α) (lookup : String → Option Json) :
    (first <*> second).build lookup = match first.build lookup with
      | .error fault => .error fault
      | .ok make => (second.build lookup).map make :=
  rfl

theorem natural_number {bits : Nat} {kind : String} {numeral : Numeral} {value : Nat}
    (word : wordValue? numeral = some (value : Int)) (small : value < Nat.pow 2 bits) :
    Reader.natural bits kind (.number numeral) = .ok value := by
  have inside : 0 ≤ (value : Int) ∧ (value : Int) < Nat.pow 2 bits := ⟨Int.natCast_nonneg _, Int.ofNat_lt.mpr small⟩
  simp only [Reader.natural, word]
  rw [if_pos inside, Int.toNat_natCast]

theorem wordValue?_ofInt {number : Nat} (small : number < UInt64.size) : wordValue? (.ofInt number) = some (number : Int) := by
  have bound : (number : Int) < UInt64.size := Int.ofNat_lt.mpr small
  have low : Int64.minValue.toInt ≤ (number : Int) := by
    rw [Int64.toInt_minValue]
    omega
  have sign : ¬((number : Int) < 0) := by omega
  simp only [wordValue?, Numeral.ofInt, Numeral.integer, Numeral.isInteger, sign, decide_false, Bool.false_and,
    List.isEmpty_nil, Option.isNone_none, Bool.and_self, Bool.not_true, Bool.or_self, Bool.false_eq_true, if_false,
    Int.natAbs_natCast]
  rw [if_pos ⟨low, bound⟩]

theorem word64_ofNat (value : UInt64) (kind : String) : Reader.word64 kind (.ofNat value.toNat) = .ok value := by
  rw [Json.ofNat, Reader.word64, natural_number (wordValue?_ofInt value.toNat_lt) value.toNat_lt]
  simp [Except.map]

theorem reader_object {record : Record α} {title : String} {members : List (Option String × Json)}
    (checked : checkMembers record.fields [] members = .ok ()) :
    record.reader title (.object members true) = record.build (memberOf record.fields members) := by
  rw [Record.reader, checked]
  rfl

section Yielding
variable {P : α → Prop} {Q : β → Prop} {reader : Reader α} {record : Record α}

/-- What a reader returns has a property, whatever it reads. -/
def Yields (property : α → Prop) (reader : Reader α) : Prop :=
  ∀ json value, reader json = .ok value → property value

/-- What is built of a record has a property, whatever its fields hold. -/
def Builds (property : α → Prop) (record : Record α) : Prop :=
  ∀ lookup value, record.build lookup = .ok value → property value

theorem map_ok {result : Except Fault α} {change : α → β} {value : β} (mapped : result.map change = .ok value) :
    ∃ before, result = .ok before ∧ change before = value := by
  cases result with
  | error fault => cases mapped
  | ok before => exact ⟨before, rfl, Except.ok.inj mapped⟩

theorem yields_any (reader : Reader α) : Yields (fun _ => True) reader :=
  fun _ _ _ => trivial

theorem yields_double : Yields (·.isFinite = true) Reader.double := by
  intro json value read
  unfold Reader.double at read
  split at read
  next numeral =>
    split at read
    next found =>
      cases read
      unfold Numeral.double? at found
      simp only at found
      split at found
      next finite =>
        cases found
        exact finite
      next => cases found
    next => cases read
  next => cases read

theorem yields_optional (yields : Yields P reader) : Yields (fun value => ∀ part ∈ value, P part)
    (Reader.optional reader) := by
  intro json value read
  unfold Reader.optional at read
  split at read
  · cases read
    exact nofun
  · obtain ⟨part, inner, rfl⟩ := map_ok read
    rintro _ ⟨⟩
    exact yields _ _ inner

private theorem readItems_yields (yields : Yields P reader) {index : Nat} {items : List Json} {values : List α}
    (read : Reader.readItems reader index items = .ok values) : ∀ value ∈ values, P value := by
  induction items generalizing index values with
  | nil =>
    cases read
    exact nofun
  | cons item rest ih =>
    unfold Reader.readItems at read
    split at read
    next => cases read
    next value first =>
      obtain ⟨others, later, rfl⟩ := map_ok read
      exact List.forall_mem_cons.mpr ⟨yields _ _ first, ih later⟩

theorem yields_list (yields : Yields P reader) : Yields (fun values => ∀ value ∈ values, P value)
    (Reader.list reader) := by
  intro json values read
  unfold Reader.list at read
  split at read
  next items closed =>
    split at read
    next => cases read
    next found items_read =>
      split at read
      · cases read
        exact readItems_yields yields items_read
      · cases read
  next => cases read

theorem builds_required {name : String} {aliases : List String} (yields : Yields P reader) :
    Builds P (Record.required name aliases reader) := by
  intro lookup value built
  simp only [Record.required, Record.field] at built
  split at built
  · exact yields _ _ built
  · cases built

theorem builds_defaulting {name : String} {aliases : List String} {value : α} (yields : Yields P reader)
    (default : P value) : Builds P (Record.defaulting name aliases reader value) := by
  intro lookup value built
  simp only [Record.defaulting, Record.field] at built
  split at built
  · exact yields _ _ built
  · cases built
    exact default

theorem builds_map {make : α → β} (part : Builds P record) (made : ∀ value, P value → Q (make value)) :
    Builds Q (make <$> record) := by
  intro lookup value built
  obtain ⟨inner, read, rfl⟩ := map_ok built
  exact made inner (part lookup inner read)

theorem builds_seq {makers : Record (α → β)} (rest : Builds (fun make => ∀ value, P value → Q (make value)) makers)
    (part : Builds P record) : Builds Q (makers <*> record) := by
  intro lookup value built
  rw [build_seq] at built
  split at built
  next => cases built
  next make made =>
    obtain ⟨inner, read, rfl⟩ := map_ok built
    exact rest lookup make made inner (part lookup inner read)

theorem yields_record {title : String} (builds : Builds P record) : Yields P (record.reader title) := by
  intro json value read
  unfold Record.reader at read
  split at read
  next members closed =>
    split at read
    next => cases read
    next =>
      split at read
      · exact builds _ _ read
      · cases read
  next items closed =>
    simp only at read
    split at read
    next => cases read
    next => exact builds _ _ read
  next => cases read
  next => cases read

end Yielding

end Montage.Proofs.JsonRecords
