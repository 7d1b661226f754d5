import Mathlib.Data.List.Forall2
import Mathlib.Data.List.Pairwise
import Montage.Proofs.WrittenRecords

/-! What is read of an object depends on what its members say and not on how they say it. A record is read alike
whatever the order of the members, whichever names of the fields they go by, and whether what is undeclared, or what
a field takes anyway, is there or not. An object that gives a field twice is never read. -/

namespace Montage.Proofs.RecordMembers
open Montage.Json Record JsonRecords WrittenRecords

abbrev Members := List (Option String × Json)

/-- What is declared of a field: its names, and which values of it come to the same. -/
structure Slot where
  name : String
  aliases : List String := []
  /-- Whether a value is the one that the field takes when it is not there. -/
  usual : Json → Prop := fun _ => False
  /-- Whether the first value may be put as the second. -/
  restated : Json → Json → Prop := fun _ _ => False
  /-- Whether a field is given twice within the value. -/
  repeats : Json → Prop := fun _ => False

def Slot.spellings (slot : Slot) : List String :=
  slot.name :: slot.aliases

/-- The members of an object put in another way, by one change. -/
inductive Restated (slots : List Slot) : Members → Members → Prop
  | reordered {members others : Members} (perm : members.Perm others) : Restated slots members others
  | respelled {front back : Members} {slot : Slot} {key other : String} {value : Json} (declared : slot ∈ slots)
      (named : key ∈ slot.spellings) (also : other ∈ slot.spellings) :
      Restated slots (front ++ (some key, value) :: back) (front ++ (some other, value) :: back)
  | added {front back : Members} {key : String} {value : Json} (undeclared : ∀ slot ∈ slots, key ∉ slot.spellings)
      (whole : value.isComplete = true) :
      Restated slots (front ++ back) (front ++ (some key, value) :: back)
  | omitted {front back : Members} {slot : Slot} {key : String} {value : Json} (declared : slot ∈ slots)
      (named : key ∈ slot.spellings) (usual : slot.usual value) :
      Restated slots (front ++ (some key, value) :: back) (front ++ back)
  | within {front back : Members} {slot : Slot} {key : String} {value other : Json} (declared : slot ∈ slots)
      (named : key ∈ slot.spellings) (restated : slot.restated value other) :
      Restated slots (front ++ (some key, value) :: back) (front ++ (some key, other) :: back)

/-- Members that give a field twice, under whichever of its names, or that hold such members in a declared field. -/
inductive Repeats (slots : List Slot) : Members → Prop
  | twice {front middle back : Members} {slot : Slot} {key other : String} {value again : Json}
      (declared : slot ∈ slots) (named : key ∈ slot.spellings) (also : other ∈ slot.spellings) :
      Repeats slots (front ++ (some key, value) :: middle ++ (some other, again) :: back)
  | within {front back : Members} {slot : Slot} {key : String} {value : Json} (declared : slot ∈ slots)
      (named : key ∈ slot.spellings) (repeats : slot.repeats value) :
      Repeats slots (front ++ (some key, value) :: back)

inductive ObjectRestated (slots : List Slot) : Json → Json → Prop
  | members {members others : Members} (restated : Restated slots members others) :
      ObjectRestated slots (.object members true) (.object others true)

inductive ObjectRepeats (slots : List Slot) : Json → Prop
  | members {members : Members} {closed : Bool} (repeats : Repeats slots members) :
      ObjectRepeats slots (.object members closed)

inductive ListRestated (restated : Json → Json → Prop) : Json → Json → Prop
  | item {front back : List Json} {item other : Json} {closed : Bool} (changed : restated item other) :
      ListRestated restated (.list (front ++ item :: back) closed) (.list (front ++ other :: back) closed)

inductive ListRepeats (repeats : Json → Prop) : Json → Prop
  | item {items : List Json} {item : Json} {closed : Bool} (member : item ∈ items) (faulty : repeats item) :
      ListRepeats repeats (.list items closed)

section Checking
variable {fields : List Field} {members others : Members} {field : Field} {key : String} {value : Json}

def spellings (field : Field) : List String :=
  field.name :: field.aliases

/-- No two of some lists of names share a name. -/
abbrev Apart (spellings : List (List String)) : Prop :=
  spellings.Pairwise fun first second => ∀ key ∈ first, key ∉ second

theorem apart_unique {spellings : α → List String} {items : List α} (apart : Apart (items.map spellings))
    {first second : α} (one : first ∈ items) (two : second ∈ items) (named : key ∈ spellings first)
    (also : key ∈ spellings second) : first = second := by
  have symmetric : Std.Symm fun first second => ¬ (key ∈ spellings first ∧ key ∈ spellings second) :=
    ⟨fun _ _ disjoint both => disjoint both.symm⟩
  have disjoint : items.Pairwise fun first second => ¬ (key ∈ spellings first ∧ key ∈ spellings second) :=
    (List.pairwise_map.mp apart).imp fun strange both => strange key both.1 both.2
  by_contra different
  exact disjoint.forall one two different ⟨named, also⟩

theorem goesBy_iff : field.goesBy key = true ↔ key ∈ spellings field := by
  simp [Field.goesBy, spellings]

theorem find?_iff (apart : Apart (fields.map spellings)) :
    find? fields key = some field ↔ field ∈ fields ∧ key ∈ spellings field := by
  constructor
  · intro found
    have goes := List.find?_some (p := fun field : Field => field.goesBy key) found
    exact ⟨List.mem_of_find?_eq_some found, goesBy_iff.mp goes⟩
  · rintro ⟨member, named⟩
    exact find?_only member (goesBy_iff.mpr named) fun other among also =>
      apart_unique apart among member (goesBy_iff.mp also) named

def given (fields : List Field) (member : Option String × Json) : Option Field :=
  member.1.bind (find? fields)

def givenNames (fields : List Field) (members : Members) : List String :=
  members.filterMap fun member => (given fields member).map Field.name

theorem givenNames_cons (fields : List Field) (member : Option String × Json) (rest : Members) :
    givenNames fields (member :: rest) = ((given fields member).map Field.name).toList ++ givenNames fields rest := by
  rw [givenNames, List.filterMap_cons]
  cases given fields member <;> rfl

private theorem givenNames_append (fields : List Field) (front back : Members) :
    givenNames fields (front ++ back) = givenNames fields front ++ givenNames fields back :=
  List.filterMap_append

/-- Whether a member may stand in an object: its key is a text, and its value suits the field that it gives or, if it
gives none, does not break off. -/
def Fine (fields : List Field) (member : Option String × Json) : Prop :=
  member.1.isSome = true ∧ match given fields member with
    | some field => field.check member.2 = .ok ()
    | none => member.2.isComplete = true

theorem checkMembers_iff {seen : List String} : checkMembers fields seen members = .ok () ↔
    (∀ member ∈ members, Fine fields member) ∧ (givenNames fields members).Nodup ∧
      ∀ name ∈ givenNames fields members, name ∉ seen := by
  -- The names that were seen take the place of the members in front.
  induction members generalizing seen with
  | nil => simp [checkMembers, givenNames]
  | cons member rest ih =>
    obtain ⟨key, value⟩ := member
    rw [givenNames_cons, List.forall_mem_cons]
    cases key with
    | none => simp [checkMembers, Fine]
    | some key =>
      have gives : given fields (some key, value) = find? fields key := rfl
      rw [checkMembers, Fine, gives]
      cases found : find? fields key with
      | none => cases value.isComplete <;> simp [ih]
      | some field =>
        by_cases again : field.name ∈ seen
        · simp [again]
        · simp only [List.contains_eq_mem, again, decide_false, Bool.false_eq_true, if_false, Option.map_some,
            Option.toList_some, List.singleton_append, List.nodup_cons, List.forall_mem_cons, Option.isSome_some, true_and]
          cases field.check value with
          | error fault => simp
          | ok =>
            simp only [ih, List.mem_cons, not_or]
            constructor
            · rintro ⟨fine, nodup, fresh⟩
              exact ⟨⟨trivial, fine⟩, ⟨fun inside => (fresh _ inside).1 rfl, nodup⟩, not_false,
                fun name inside => (fresh name inside).2⟩
            · rintro ⟨⟨-, fine⟩, ⟨new, nodup⟩, -, fresh⟩
              exact ⟨fine, nodup, fun name inside => ⟨fun same => new (same ▸ inside), fresh name inside⟩⟩

/-- Whether the members of an object are all fine, and none gives a field for a second time. -/
structure Sound (fields : List Field) (members : Members) : Prop where
  fine : ∀ member ∈ members, Fine fields member
  nodup : (givenNames fields members).Nodup

theorem checkMembers_sound : checkMembers fields [] members = .ok () ↔ Sound fields members := by
  rw [checkMembers_iff]
  exact ⟨fun ⟨fine, nodup, _⟩ => ⟨fine, nodup⟩, fun sound => ⟨sound.fine, sound.nodup, fun _ _ => List.not_mem_nil⟩⟩

theorem sound_perm (perm : members.Perm others) (sound : Sound fields members) : Sound fields others where
  fine member inside := sound.fine member (perm.mem_iff.mpr inside)
  nodup := (perm.filterMap _).nodup_iff.mp sound.nodup

theorem sound_cons {member : Option String × Json} {rest : Members} : Sound fields (member :: rest) ↔
    Fine fields member ∧ Sound fields rest ∧
      ∀ field, given fields member = some field → field.name ∉ givenNames fields rest := by
  have names : (givenNames fields (member :: rest)).Nodup ↔ (givenNames fields rest).Nodup ∧
      ∀ field, given fields member = some field → field.name ∉ givenNames fields rest := by
    rw [givenNames_cons]
    cases given fields member <;> simp [and_comm]
  constructor
  · rintro ⟨fine, nodup⟩
    obtain ⟨first, later⟩ := List.forall_mem_cons.mp fine
    exact ⟨first, ⟨later, (names.mp nodup).1⟩, (names.mp nodup).2⟩
  · rintro ⟨first, later, fresh⟩
    exact ⟨List.forall_mem_cons.mpr ⟨first, later.fine⟩, names.mpr ⟨later.nodup, fresh⟩⟩

section Looking
variable (apart : Apart (fields.map spellings)) (member : field ∈ fields)
include apart member

theorem given_some (named : key ∈ spellings field) (value : Json) : given fields (some key, value) = some field :=
  (find?_iff apart).mpr ⟨member, named⟩

theorem memberOf_find? (members : Members) : memberOf fields members field.name =
    (members.find? fun member => member.1.any field.goesBy).map (·.2) := by
  have named : fields.find? (·.name = field.name) = some field := by
    refine find?_only member (decide_eq_true rfl) fun other among same => ?_
    have shared : field.name ∈ spellings other := of_decide_eq_true same ▸ List.mem_cons_self
    exact apart_unique apart among member shared List.mem_cons_self
  rw [memberOf, named]

theorem memberOf_cons (key : String) (value : Json) (rest : Members) :
    memberOf fields ((some key, value) :: rest) field.name =
      if key ∈ spellings field then some value else memberOf fields rest field.name := by
  rw [memberOf_find? apart member, memberOf_find? apart member, List.find?_cons]
  by_cases named : key ∈ spellings field
  · have goes : (some key).any field.goesBy = true := goesBy_iff.mpr named
    rw [if_pos named, goes]
    rfl
  · have strange : (some key).any field.goesBy = false := Bool.eq_false_iff.mpr fun goes => named (goesBy_iff.mp goes)
    rw [if_neg named, strange]

private theorem memberOf_fresh {members : Members} (fresh : field.name ∉ givenNames fields members) :
    memberOf fields members field.name = none := by
  rw [memberOf_find? apart member, Option.map_eq_none_iff, List.find?_eq_none]
  rintro ⟨key, value⟩ inside goes
  cases key with
  | none => cases goes
  | some key =>
    have gives := given_some apart member (goesBy_iff.mp goes) value
    exact fresh (List.mem_filterMap.mpr ⟨_, inside, by rw [gives, Option.map_some]⟩)

/-- In sound members each field is given once at most, so that its place does not matter. -/
theorem memberOf_perm (perm : members.Perm others) (sound : Sound fields members) :
    memberOf fields members field.name = memberOf fields others field.name := by
  induction perm with
  | nil => rfl
  | @cons member members others perm ih =>
    obtain ⟨key, value⟩ := member
    obtain ⟨first, later, -⟩ := sound_cons.mp sound
    obtain ⟨key, rfl⟩ := Option.isSome_iff_exists.mp first.1
    rw [memberOf_cons apart member, memberOf_cons apart member, ih later]
  | swap one two rest =>
    obtain ⟨key, value⟩ := one
    obtain ⟨other, again⟩ := two
    obtain ⟨first, behind, fresh⟩ := sound_cons.mp sound
    obtain ⟨second, -, -⟩ := sound_cons.mp behind
    obtain ⟨key, rfl⟩ := Option.isSome_iff_exists.mp second.1
    obtain ⟨other, rfl⟩ := Option.isSome_iff_exists.mp first.1
    simp only [memberOf_cons apart member]
    split_ifs with named also
    · have gives := given_some apart member named again
      refine absurd ?_ (fresh field gives)
      rw [givenNames_cons, given_some apart member also]
      simp
    all_goals rfl
  | trans one two first second => exact (first sound).trans (second (sound_perm one sound))

end Looking

end Checking

/-- Whether a field is declared by an slot, and takes the values that come to the same alike. -/
structure Declares (slot : Slot) (field : Field) : Prop where
  name : field.name = slot.name
  spellings : spellings field = slot.spellings
  restated : ∀ value other, slot.restated value other → field.check value = .ok () → field.check other = .ok ()
  repeats : ∀ value, slot.repeats value → field.check value ≠ .ok ()

section Declared
variable {fields : List Field} {slots : List Slot}

theorem declares_spellings (declared : List.Forall₂ Declares slots fields) :
    fields.map spellings = slots.map Slot.spellings := by
  induction declared with
  | nil => rfl
  | cons first _ ih => rw [List.map_cons, List.map_cons, first.spellings, ih]

theorem declares_field (declared : List.Forall₂ Declares slots fields) {slot : Slot} (member : slot ∈ slots) :
    ∃ field ∈ fields, Declares slot field := by
  induction declared with
  | nil => cases member
  | cons first _ ih =>
    rcases List.mem_cons.mp member with rfl | later
    · exact ⟨_, List.mem_cons_self, first⟩
    · obtain ⟨field, inside, declares⟩ := ih later
      exact ⟨field, List.mem_cons_of_mem _ inside, declares⟩

/-- What two look-ups tell of a field, when one object is the other put in another way. -/
inductive Alike (slot : Slot) : Option Json → Option Json → Prop
  | same (found : Option Json) : Alike slot found found
  | restated {value other : Json} (restated : slot.restated value other) : Alike slot (some value) (some other)
  | omitted {value : Json} (usual : slot.usual value) : Alike slot (some value) none

/-- The second members stand in an object if the first do, and each field finds alike. -/
def Follows (fields : List Field) (slots : List Slot) (members others : Members) : Prop :=
  Sound fields members → Sound fields others ∧
    ∀ slot ∈ slots, Alike slot (memberOf fields members slot.name) (memberOf fields others slot.name)

variable {members others : Members} {front back : Members} {slot : Slot} {key : String} {value : Json}
  (declared : List.Forall₂ Declares slots fields) (apart : Apart (slots.map Slot.spellings))
include declared apart

/-- A change at the front is as good as a change elsewhere. -/
theorem follows_middle (first second : Members)
    (follows : Follows fields slots (first ++ (front ++ back)) (second ++ (front ++ back))) :
    Follows fields slots (front ++ (first ++ back)) (front ++ (second ++ back)) := by
  have fields_apart : Apart (fields.map spellings) := declares_spellings declared ▸ apart
  have moved (middle : Members) : (front ++ (middle ++ back)).Perm (middle ++ (front ++ back)) := by
    rw [← List.append_assoc, ← List.append_assoc]
    exact List.perm_append_comm.append_right back
  intro sound
  have ahead := sound_perm (moved first) sound
  obtain ⟨others_sound, alike⟩ := follows ahead
  refine ⟨sound_perm (moved second).symm others_sound, fun slot member => ?_⟩
  obtain ⟨field, inside, declares⟩ := declares_field declared member
  have found := alike slot member
  rwa [← declares.name, ← memberOf_perm fields_apart inside (moved first) sound,
    memberOf_perm fields_apart inside (moved second).symm others_sound, declares.name] at found

/-- Only the member in front is different: it gives the same field as before, and the field takes its value. -/
private theorem follows_front {other : String} {again : Json} {rest : Members} (member : slot ∈ slots)
    (named : key ∈ slot.spellings) (also : other ∈ slot.spellings)
    (taken : ∀ field, Declares slot field → field.check value = .ok () → field.check again = .ok ())
    (alike : Alike slot (some value) (some again)) :
    Follows fields slots ((some key, value) :: rest) ((some other, again) :: rest) := by
  have fields_apart : Apart (fields.map spellings) := declares_spellings declared ▸ apart
  obtain ⟨field, inside, declares⟩ := declares_field declared member
  have gives : ∀ key ∈ slot.spellings, ∀ value, given fields (some key, value) = some field :=
    fun key named value => given_some fields_apart inside (declares.spellings ▸ named) value
  intro sound
  obtain ⟨⟨-, fits⟩, later, fresh⟩ := sound_cons.mp sound
  rw [gives key named] at fits fresh
  refine ⟨sound_cons.mpr ⟨⟨rfl, ?_⟩, later, ?_⟩, ?_⟩
  · rw [gives other also]
    exact taken field declares fits
  · rwa [gives other also]
  · intro second among
    obtain ⟨target, target_inside, target_declares⟩ := declares_field declared among
    rw [← target_declares.name, memberOf_cons fields_apart target_inside, memberOf_cons fields_apart target_inside,
      target_declares.spellings]
    by_cases same : key ∈ second.spellings
    · obtain rfl := apart_unique apart among member same named
      rw [if_pos same, if_pos also]
      exact alike
    · have strange : other ∉ second.spellings := fun goes => same (apart_unique apart among member goes also ▸ named)
      rw [if_neg same, if_neg strange]
      exact .same _

private theorem follows_added {rest : Members} (undeclared : ∀ slot ∈ slots, key ∉ slot.spellings)
    (whole : value.isComplete = true) : Follows fields slots rest ((some key, value) :: rest) := by
  have fields_apart : Apart (fields.map spellings) := declares_spellings declared ▸ apart
  have gives_none : given fields (some key, value) = none := by
    cases found : find? fields key with
    | none => exact found
    | some field =>
      obtain ⟨inside, named⟩ := (find?_iff fields_apart).mp found
      have listed : spellings field ∈ slots.map Slot.spellings :=
        declares_spellings declared ▸ List.mem_map_of_mem inside
      obtain ⟨slot, member, same⟩ := List.mem_map.mp listed
      exact absurd (same ▸ named) (undeclared slot member)
  intro sound
  refine ⟨sound_cons.mpr ⟨⟨rfl, ?_⟩, sound, ?_⟩, ?_⟩
  · rw [gives_none]
    exact whole
  · rw [gives_none]
    exact nofun
  · intro slot member
    obtain ⟨field, inside, declares⟩ := declares_field declared member
    rw [← declares.name, memberOf_cons fields_apart inside, declares.spellings, if_neg (undeclared slot member)]
    exact .same _

private theorem follows_omitted {rest : Members} (member : slot ∈ slots) (named : key ∈ slot.spellings)
    (usual : slot.usual value) : Follows fields slots ((some key, value) :: rest) rest := by
  have fields_apart : Apart (fields.map spellings) := declares_spellings declared ▸ apart
  intro sound
  obtain ⟨-, later, fresh⟩ := sound_cons.mp sound
  refine ⟨later, fun second among => ?_⟩
  obtain ⟨field, inside, declares⟩ := declares_field declared among
  rw [← declares.name, memberOf_cons fields_apart inside, declares.spellings]
  by_cases same : key ∈ second.spellings
  · obtain rfl := apart_unique apart among member same named
    have gives := given_some fields_apart inside (declares.spellings ▸ named) value
    rw [if_pos same, memberOf_fresh fields_apart inside (fresh field gives)]
    exact .omitted usual
  · rw [if_neg same]
    exact .same _

private theorem restated_follows (restated : Restated slots members others) : Follows fields slots members others := by
  have fields_apart : Apart (fields.map spellings) := declares_spellings declared ▸ apart
  cases restated with
  | reordered perm =>
    intro sound
    refine ⟨sound_perm perm sound, fun slot member => ?_⟩
    obtain ⟨field, inside, declares⟩ := declares_field declared member
    rw [← declares.name, memberOf_perm fields_apart inside perm sound]
    exact .same _
  | @respelled front back slot key other value member named also =>
    exact follows_middle declared apart [(some key, value)] [(some other, value)]
      (follows_front declared apart member named also (fun _ _ checked => checked) (.same _))
  | @added front back key value undeclared whole =>
    exact follows_middle declared apart [] [(some key, value)]
      (follows_added declared apart undeclared whole)
  | @omitted front back slot key value member named usual =>
    exact follows_middle declared apart [(some key, value)] []
      (follows_omitted declared apart member named usual)
  | @within front back slot key value other member named restated =>
    exact follows_middle declared apart [(some key, value)] [(some key, other)]
      (follows_front declared apart member named named (fun _ declares => declares.restated _ _ restated)
        (.restated restated))

private theorem repeats_unsound (repeats : Repeats slots members) : ¬ Sound fields members := by
  have fields_apart : Apart (fields.map spellings) := declares_spellings declared ▸ apart
  intro sound
  cases repeats with
  | @twice front middle back slot key other value again member named also =>
    obtain ⟨field, inside, declares⟩ := declares_field declared member
    have first := given_some fields_apart inside (declares.spellings ▸ named) value
    have second := given_some fields_apart inside (declares.spellings ▸ also) again
    have nodup := sound.nodup
    simp only [List.append_assoc, List.cons_append, givenNames_append, givenNames_cons, first, second] at nodup
    simp [List.nodup_append] at nodup
  | @within front back slot key value member named repeats =>
    obtain ⟨field, inside, declares⟩ := declares_field declared member
    have fits := (sound.fine _ (List.mem_append_right front List.mem_cons_self)).2
    rw [given_some fields_apart inside (declares.spellings ▸ named) value] at fits
    exact declares.repeats value repeats fits

end Declared

/-- Whether a record is one of the declared fields, and the same is built of it from look-ups that tell alike. -/
structure Settles (record : Record α) (slots : List Slot) : Prop where
  declared : List.Forall₂ Declares slots record.fields
  built : ∀ (lookup other : String → Option Json) (value : α),
    (∀ slot ∈ slots, Alike slot (lookup slot.name) (other slot.name)) →
      record.build lookup = .ok value → record.build other = .ok value

/-- What is written in one way and in another is read alike, and what repeats a field is not read. -/
structure Regards (reader : Reader α) (restated : Json → Json → Prop) (repeats : Json → Prop) : Prop where
  restated : ∀ json other value, restated json other → reader json = .ok value → reader other = .ok value
  repeats : ∀ json value, repeats json → reader json ≠ .ok value

section Rules
variable {reader : Reader α} {record : Record α} {slots more : List Slot} {restated : Json → Json → Prop}
  {repeats : Json → Prop}

theorem regards_plain (reader : Reader α) : Regards reader (fun _ _ => False) fun _ => False :=
  ⟨nofun, nofun⟩

theorem settles_field (slot : Slot) {defaulted : Bool} {absent : Except Fault α}
    (regards : Regards reader slot.restated slot.repeats)
    (usual : ∀ json value, slot.usual json → reader json = .ok value → absent = .ok value) :
    Settles (Record.field slot.name slot.aliases reader defaulted absent) [slot] where
  declared := by
    refine .cons ⟨rfl, rfl, fun value other restated checked => ?_, fun value repeats checked => ?_⟩ .nil
    · obtain ⟨read, found, -⟩ := map_ok checked
      simp only [regards.restated value other read restated found]
      rfl
    · obtain ⟨read, found, -⟩ := map_ok checked
      exact regards.repeats value read repeats found
  built lookup other value alike built := by
    simp only [Record.field] at built ⊢
    have found := alike slot List.mem_cons_self
    generalize lookup slot.name = first at found built
    generalize other slot.name = second at found ⊢
    cases found with
    | same => exact built
    | restated restated => exact regards.restated _ _ value restated built
    | omitted usual_value => exact usual _ value usual_value built

theorem settles_map {make : α → β} (settles : Settles record slots) : Settles (make <$> record) slots where
  declared := settles.declared
  built lookup other value alike built := by
    obtain ⟨inner, read, rfl⟩ := map_ok built
    rw [build_map, settles.built lookup other inner alike read]
    rfl

theorem settles_seq {makers : Record (α → β)} (first : Settles makers slots) (second : Settles record more) :
    Settles (makers <*> record) (slots ++ more) where
  declared := List.rel_append first.declared second.declared
  built lookup other value alike built := by
    rw [build_seq] at built
    split at built
    next => cases built
    next make made =>
      obtain ⟨inner, read, rfl⟩ := map_ok built
      rw [build_seq, first.built lookup other make (fun slot member => alike slot (List.mem_append_left _ member)) made,
        second.built lookup other inner (fun slot member => alike slot (List.mem_append_right _ member)) read]
      rfl

theorem regards_record {title : String} (settles : Settles record slots) (apart : Apart (slots.map Slot.spellings)) :
    Regards (record.reader title) (ObjectRestated slots) (ObjectRepeats slots) where
  restated json other value restated read := by
    obtain ⟨restated⟩ := restated
    rename_i members others
    unfold Record.reader at read
    cases checked : checkMembers record.fields [] members with
    | error fault => simp [checked] at read
    | ok =>
      simp only [checked, if_true] at read
      obtain ⟨sound, alike⟩ := restated_follows settles.declared apart restated (checkMembers_sound.mp checked)
      rw [reader_object (checkMembers_sound.mpr sound)]
      exact settles.built _ _ value alike read
  repeats json value repeats read := by
    obtain ⟨repeats⟩ := repeats
    rename_i members closed
    unfold Record.reader at read
    cases checked : checkMembers record.fields [] members with
    | error fault => simp [checked] at read
    | ok => exact repeats_unsound settles.declared apart repeats (checkMembers_sound.mp checked)

theorem regards_optional (regards : Regards reader (ObjectRestated slots) (ObjectRepeats slots)) :
    Regards (Reader.optional reader) (ObjectRestated slots) (ObjectRepeats slots) where
  restated json other value restated read := by
    obtain ⟨changed⟩ := restated
    obtain ⟨inner, found, rfl⟩ := map_ok read
    simp only [Reader.optional, regards.restated _ _ inner (.members changed) found]
    rfl
  repeats json value repeats read := by
    obtain ⟨again⟩ := repeats
    obtain ⟨inner, found, -⟩ := map_ok read
    exact regards.repeats _ inner (.members again) found

theorem readItems_iff {index : Nat} {items : List Json} {values : List α} :
    Reader.readItems reader index items = .ok values ↔
      List.Forall₂ (fun item value => reader item = .ok value) items values := by
  induction items generalizing index values with
  | nil => simp [Reader.readItems, eq_comm]
  | cons item rest ih =>
    rw [Reader.readItems, List.forall₂_cons_left_iff]
    cases reader item with
    | error fault => simp
    | ok value =>
      constructor
      · intro read
        obtain ⟨others, later, rfl⟩ := map_ok read
        exact ⟨value, others, rfl, ih.mp later, rfl⟩
      · rintro ⟨_, others, ⟨⟩, later, rfl⟩
        simp only [ih.mpr later]
        rfl

theorem list_ok_iff {items : List Json} {closed : Bool} {values : List α} :
    Reader.list reader (.list items closed) = .ok values ↔
      closed = true ∧ List.Forall₂ (fun item value => reader item = .ok value) items values := by
  rw [← @readItems_iff _ reader 0, Reader.list]
  cases Reader.readItems reader 0 items <;> cases closed <;> simp

theorem regards_list (regards : Regards reader restated repeats) :
    Regards (Reader.list reader) (ListRestated restated) (ListRepeats repeats) where
  restated json other values restated read := by
    obtain ⟨changed⟩ := restated
    rename_i front back item other closed
    obtain ⟨rfl, items_read⟩ := list_ok_iff.mp read
    refine list_ok_iff.mpr ⟨rfl, ?_⟩
    clear read
    induction front generalizing values with
    | nil =>
      obtain ⟨value, rest, found, later, rfl⟩ := List.forall₂_cons_left_iff.mp items_read
      exact .cons (regards.restated _ _ value changed found) later
    | cons first front ih =>
      obtain ⟨value, rest, found, later, rfl⟩ := List.forall₂_cons_left_iff.mp items_read
      exact .cons found (ih rest later)
  repeats json values repeats read := by
    obtain ⟨member, faulty⟩ := repeats
    obtain ⟨-, items_read⟩ := list_ok_iff.mp read
    clear read
    induction items_read with
    | nil => cases member
    | @cons first value items values found _ ih =>
      rcases List.mem_cons.mp member with rfl | later
      · exact regards.repeats _ value faulty found
      · exact ih later

end Rules

end Montage.Proofs.RecordMembers
