import Mathlib.Data.List.Chain
import Mathlib.Data.List.Forall2
import Montage.Metrics.Path
import Montage.Proofs.PathJoin

/-! The labels that paths are counted under. The identifier of a project never shows in a label. Of the other segments
those that are numbers do not show either, as long as no two of them follow one another: a replacement uses up the slash
behind the number, so that of two neighbours the second is left, and paths that differ there are counted apart. -/

namespace Montage.Proofs.PathLabels
open Metrics PathJoin

/-- A segment that is a number: one or more of the ten digits. -/
structure Digits (segment : String) : Prop where
  filled : segment ≠ ""
  each : ∀ c ∈ segment.toList, '0' ≤ c ∧ c ≤ '9'

theorem isNumber_iff {segment : String} : isNumber segment = true ↔ Digits segment := by
  simp only [isNumber, Number.isDigit, Bool.and_eq_true, Bool.not_eq_true', List.all_eq_true, decide_eq_true_eq]
  constructor
  · rintro ⟨filled, each⟩
    exact ⟨by simpa using filled, each⟩
  · rintro ⟨filled, each⟩
    exact ⟨by simpa using filled, each⟩

instance : DecidablePred Digits := fun _ => decidable_of_iff _ isNumber_iff

theorem not_digits_empty : ¬ Digits "" := by decide

theorem not_digits_projects : ¬ Digits "projects" := by decide

theorem not_digits_project : ¬ Digits ":project_id" := by decide

theorem not_digits_number : ¬ Digits ":id" := by decide

/-- What stands behind the slashes of a path. -/
def segments (path : String) : List String :=
  (Path.parts path).tail

def labelled (path : List String) : List String :=
  hideNumbers (hideProjects path)

/-- No two neighbours are both numbers. -/
def Spread (path : List String) : Prop :=
  path.IsChain fun one next => ¬ (Digits one ∧ Digits next)

/-- Paths that differ only in segments that are numbers. -/
structure Alike (path other : String) : Prop where
  head : (Path.parts path).head? = (Path.parts other).head?
  each : List.Forall₂ (fun one two => one = two ∨ Digits one ∧ Digits two) (segments path) (segments other)

section Rules
variable {segment next : String} (rest : List String)

theorem hideProjects_pair (named : next ≠ "") :
    hideProjects ("projects" :: next :: rest) = "projects" :: ":project_id" :: hideProjects rest := by
  simp [hideProjects, named]

theorem hideProjects_kept (kept : ¬ (segment = "projects" ∧ next ≠ "")) :
    hideProjects (segment :: next :: rest) = segment :: hideProjects (next :: rest) := by
  rw [hideProjects, if_neg kept]

theorem hideNumbers_last (number : Digits segment) : hideNumbers [segment] = [":id"] := by
  rw [hideNumbers, if_pos (isNumber_iff.mpr number)]

theorem hideNumbers_pair (number : Digits segment) :
    hideNumbers (segment :: next :: rest) = ":id" :: next :: hideNumbers rest := by
  rw [hideNumbers, if_pos (isNumber_iff.mpr number)]

theorem hideNumbers_kept (kept : ¬ Digits segment) : hideNumbers (segment :: rest) = segment :: hideNumbers rest := by
  cases rest <;> simp [hideNumbers, isNumber_iff, kept]

end Rules

section Numbers
variable {path : List String}

/-- A number that is left stands directly behind one that was replaced. -/
private theorem numbers_follow (before : String) (path : List String) :
    (before :: hideNumbers path).IsChain fun before segment => Digits segment → before = ":id" := by
  induction path using hideNumbers.induct generalizing before with
  | case1 => exact .singleton before
  | case2 last =>
    by_cases number : Digits last
    · rw [hideNumbers_last number]
      simp [not_digits_number]
    · rw [hideNumbers_kept _ number]
      simp [number, hideNumbers]
  | case3 segment next rest number ih =>
    rw [hideNumbers_pair rest (isNumber_iff.mp number)]
    exact .cons_cons (fun digits => absurd digits not_digits_number) (.cons_cons (fun _ => rfl) (ih next))
  | case4 segment next rest number ih =>
    have kept : ¬ Digits segment := fun digits => number (isNumber_iff.mpr digits)
    rw [hideNumbers_kept _ kept]
    exact .cons_cons (fun digits => absurd digits kept) (ih segment)

private theorem spread_hidden (path : List String) : Spread (hideNumbers path) := by
  refine (numbers_follow "" path).tail.imp fun one next follows digits => ?_
  rw [follows digits.2] at digits
  exact not_digits_number digits.1

private theorem hideNumbers_spread (spread : Spread path) :
    hideNumbers path = path.map fun segment => if Digits segment then ":id" else segment := by
  induction path using hideNumbers.induct with
  | case1 => rfl
  | case2 last => simp [hideNumbers, isNumber_iff]
  | case3 segment next rest number ih =>
    have number := isNumber_iff.mp number
    obtain ⟨apart, later⟩ := List.isChain_cons_cons.mp spread
    have kept : ¬ Digits next := fun digits => apart ⟨number, digits⟩
    rw [hideNumbers_pair rest number, ih later.tail]
    simp [number, kept]
  | case4 segment next rest number ih =>
    have kept : ¬ Digits segment := fun digits => number (isNumber_iff.mpr digits)
    rw [hideNumbers_kept _ kept, ih spread.tail]
    simp [kept]

theorem numberless_iff : (∀ segment ∈ hideNumbers path, ¬ Digits segment) ↔ Spread path := by
  constructor
  · intro numberless
    induction path using hideNumbers.induct with
    | case1 => exact .nil
    | case2 last => exact .singleton last
    | case3 segment next rest number ih =>
      rw [hideNumbers_pair rest (isNumber_iff.mp number)] at numberless
      simp only [List.forall_mem_cons] at numberless
      obtain ⟨-, kept, later⟩ := numberless
      refine .cons_cons (fun digits => kept digits.2) (List.isChain_cons.mpr ⟨?_, ih later⟩)
      exact fun _ _ digits => kept digits.1
    | case4 segment next rest number ih =>
      have kept : ¬ Digits segment := fun digits => number (isNumber_iff.mpr digits)
      rw [hideNumbers_kept _ kept, List.forall_mem_cons] at numberless
      exact .cons_cons (fun digits => kept digits.1) (ih numberless.2)
  · intro spread segment member
    rw [hideNumbers_spread spread] at member
    obtain ⟨given, -, rfl⟩ := List.mem_map.mp member
    split
    · exact not_digits_number
    next kept => exact kept

private theorem hideNumbers_same (spread : Spread path) :
    hideNumbers path = path ↔ ∀ segment ∈ path, ¬ Digits segment := by
  rw [hideNumbers_spread spread]
  constructor
  · intro same segment member number
    have replaced := List.map_inj_left.mp (same.trans (List.map_id path).symm) segment member
    rw [if_pos number] at replaced
    exact not_digits_number (replaced ▸ number)
  · intro numberless
    exact (List.map_congr_left fun segment member => if_neg (numberless segment member)).trans (List.map_id path)

end Numbers

section Projects
variable {path : List String}

/-- A segment that was left, or a number that was replaced. -/
def Replaced (before after : String) : Prop :=
  after = before ∨ Digits before ∧ after = ":id"

private theorem hideNumbers_replaced (path : List String) : List.Forall₂ Replaced path (hideNumbers path) := by
  induction path using hideNumbers.induct with
  | case1 => exact .nil
  | case2 last =>
    by_cases number : Digits last
    · rw [hideNumbers_last number]
      exact .cons (.inr ⟨number, rfl⟩) .nil
    · rw [hideNumbers_kept _ number]
      exact .cons (.inl rfl) .nil
  | case3 segment next rest number ih =>
    have number := isNumber_iff.mp number
    rw [hideNumbers_pair rest number]
    exact .cons (.inr ⟨number, rfl⟩) (.cons (.inl rfl) ih)
  | case4 segment next rest number ih =>
    rw [hideNumbers_kept _ fun digits => number (isNumber_iff.mpr digits)]
    exact .cons (.inl rfl) ih

private theorem hideProjects_head (next : String) (rest : List String) :
    ∃ later, hideProjects (next :: rest) = next :: later := by
  cases rest with
  | nil => exact ⟨[], rfl⟩
  | cons other rest =>
    unfold hideProjects
    split
    · exact ⟨_, rfl⟩
    · exact ⟨_, rfl⟩

private theorem settled_hidden {hidden : List String} (replaced : List.Forall₂ Replaced (hideProjects path) hidden) :
    hideProjects hidden = hidden := by
  induction path using hideProjects.induct generalizing hidden with
  | case1 =>
    cases replaced
    rfl
  | case2 last =>
    obtain ⟨one, none, -, ends, rfl⟩ := List.forall₂_cons_left_iff.mp replaced
    cases ends
    rfl
  | case3 segment next rest named ih =>
    obtain ⟨rfl, named⟩ := named
    rw [hideProjects_pair rest named] at replaced
    obtain ⟨one, front, first, behind, rfl⟩ := List.forall₂_cons_left_iff.mp replaced
    obtain ⟨two, later, second, beyond, rfl⟩ := List.forall₂_cons_left_iff.mp behind
    obtain rfl | ⟨digits, -⟩ := first
    · obtain rfl | ⟨digits, -⟩ := second
      · rw [hideProjects_pair later (by decide), ih beyond]
      · exact absurd digits not_digits_project
    · exact absurd digits not_digits_projects
  | case4 segment next rest kept ih =>
    rw [hideProjects_kept rest kept] at replaced
    obtain ⟨one, others, first, behind, rfl⟩ := List.forall₂_cons_left_iff.mp replaced
    have settled := ih behind
    obtain ⟨after, same⟩ := hideProjects_head next rest
    rw [same] at behind
    obtain ⟨two, later, second, -, rfl⟩ := List.forall₂_cons_left_iff.mp behind
    rw [hideProjects_kept, settled]
    rintro ⟨rfl, named⟩
    obtain rfl | ⟨-, other⟩ := first
    · have unnamed : next = "" := by simpa using kept
      subst unnamed
      obtain rfl | ⟨digits, -⟩ := second
      · exact named rfl
      · exact not_digits_empty digits
    · exact absurd other (by decide)

private theorem labelled_settled (path : List String) : hideProjects (labelled path) = labelled path :=
  settled_hidden (hideNumbers_replaced _)

private theorem labelled_twice (path : List String) :
    labelled (labelled path) = labelled path ↔ ∀ segment ∈ labelled path, ¬ Digits segment := by
  rw [labelled, labelled_settled]
  exact hideNumbers_same (spread_hidden _)

end Projects

section Renumbering

/-- A change of numbers into other numbers, which leaves all else alone. -/
structure Renumbers (change : String → String) : Prop where
  number : ∀ {segment}, Digits segment → Digits (change segment)
  other : ∀ {segment}, ¬ Digits segment → change segment = segment

namespace Renumbers
variable {change : String → String} (renumbers : Renumbers change)
include renumbers

theorem digits_iff {segment : String} : Digits (change segment) ↔ Digits segment := by
  by_cases digits : Digits segment
  · exact iff_of_true (renumbers.number digits) digits
  · rw [renumbers.other digits]

theorem word_iff {segment word : String} (word_not : ¬ Digits word) : change segment = word ↔ segment = word := by
  by_cases digits : Digits segment
  · refine iff_of_false ?_ ?_
    · rintro rfl
      exact word_not (renumbers.number digits)
    · rintro rfl
      exact word_not digits
  · rw [renumbers.other digits]

theorem projects (path : List String) : hideProjects (path.map change) = (hideProjects path).map change := by
  induction path using hideProjects.induct with
  | case1 => rfl
  | case2 last => rfl
  | case3 segment next rest named ih =>
    obtain ⟨rfl, named⟩ := named
    have still : change next ≠ "" := mt (renumbers.word_iff not_digits_empty).mp named
    simp only [List.map_cons, hideProjects_pair rest named, renumbers.other not_digits_projects,
      renumbers.other not_digits_project, hideProjects_pair _ still, ih]
  | case4 segment next rest kept ih =>
    have still : ¬ (change segment = "projects" ∧ change next ≠ "") := by
      rwa [renumbers.word_iff not_digits_projects, ne_eq, renumbers.word_iff not_digits_empty]
    rw [hideProjects_kept rest kept]
    exact (hideProjects_kept _ still).trans (congrArg _ ih)

theorem numbers (path : List String) : hideNumbers (path.map change) = (hideNumbers path).map change := by
  have word : change ":id" = ":id" := renumbers.other not_digits_number
  induction path using hideNumbers.induct with
  | case1 => rfl
  | case2 last =>
    by_cases number : Digits last
    · simp [hideNumbers, isNumber_iff, renumbers.digits_iff, number, word]
    · simp [hideNumbers, isNumber_iff, renumbers.digits_iff, number]
  | case3 segment next rest number ih =>
    have number := isNumber_iff.mp number
    rw [hideNumbers_pair rest number]
    simp only [List.map_cons, word, ← ih]
    exact hideNumbers_pair _ (renumbers.number number)
  | case4 segment next rest number ih =>
    have kept : ¬ Digits segment := fun digits => number (isNumber_iff.mpr digits)
    rw [hideNumbers_kept _ kept]
    exact (hideNumbers_kept _ (mt renumbers.digits_iff.mp kept)).trans (congrArg _ ih)

theorem label (path : List String) : labelled (path.map change) = (labelled path).map change := by
  rw [labelled, renumbers.projects, renumbers.numbers, labelled]

end Renumbers

end Renumbering

section Paths

private theorem parts_intercalate {first : String} {names : List String} (head : '/' ∉ first.toList)
    (whole : ∀ name ∈ names, '/' ∉ name.toList) : Path.parts ("/".intercalate (first :: names)) = first :: names := by
  induction names generalizing first with
  | nil => exact parts_whole head
  | cons next rest ih =>
    obtain ⟨here, later⟩ := List.forall_mem_cons.mp whole
    rw [String.intercalate_cons_cons, parts_slash, parts_whole head, ih here later]
    rfl

private theorem intercalate_head (first : String) (names : List String) :
    "/".intercalate (first :: names) = first ++ "/".intercalate ("" :: names) := by
  cases names with
  | nil => exact (String.append_empty (s := first)).symm
  | cons next rest =>
    rw [String.intercalate_cons_cons, String.intercalate_cons_cons, String.empty_append, String.append_assoc]

private theorem parts_cons (path : String) : ∃ first, Path.parts path = first :: segments path ∧
    pathLabel path = "/".intercalate (first :: labelled (segments path)) := by
  have filled : Path.parts path ≠ [] := by simp [Path.parts, Text.pieces_ne_nil]
  obtain ⟨first, rest, parts⟩ := List.exists_cons_of_ne_nil filled
  have same : (Text.pieces (· = '/') path.toList).map String.ofList = first :: rest := parts
  refine ⟨first, by rw [segments, parts, List.tail_cons], ?_⟩
  rw [pathLabel, same, segments, parts]
  rfl

theorem segments_whole {path first : String} (parts : Path.parts path = first :: segments path) :
    '/' ∉ first.toList ∧ ∀ segment ∈ segments path, '/' ∉ segment.toList := by
  have whole : ∀ part ∈ first :: segments path, '/' ∉ part.toList := by
    rw [← parts]
    exact fun _ => parts_no_slash
  exact List.forall_mem_cons.mp whole

private theorem hideProjects_subset (path : List String) : hideProjects path ⊆ ":project_id" :: path := by
  induction path using hideProjects.induct with
  | case1 => exact List.nil_subset _
  | case2 last => exact List.subset_cons_self _ _
  | case3 segment next rest named ih =>
    obtain ⟨rfl, named⟩ := named
    rw [hideProjects_pair rest named]
    grind
  | case4 segment next rest kept ih =>
    rw [hideProjects_kept rest kept]
    grind

private theorem hideNumbers_subset (path : List String) : hideNumbers path ⊆ ":id" :: path := by
  induction path using hideNumbers.induct with
  | case1 => exact List.nil_subset _
  | case2 last =>
    rw [hideNumbers]
    split <;> grind
  | case3 segment next rest number ih =>
    rw [hideNumbers_pair rest (isNumber_iff.mp number)]
    grind
  | case4 segment next rest number ih =>
    rw [hideNumbers_kept _ fun digits => number (isNumber_iff.mpr digits)]
    grind

section Whole
variable {path : List String} (whole : ∀ segment ∈ path, '/' ∉ segment.toList)
include whole

theorem whole_hidden : ∀ segment ∈ hideProjects path, '/' ∉ segment.toList := by
  intro segment member
  obtain rfl | given := List.mem_cons.mp (hideProjects_subset path member)
  · decide
  · exact whole segment given

private theorem whole_labelled : ∀ segment ∈ labelled path, '/' ∉ segment.toList := by
  intro segment member
  obtain rfl | given := List.mem_cons.mp (hideNumbers_subset _ member)
  · decide
  · exact whole_hidden whole segment given

end Whole

theorem parts_label (path : String) : ∃ first, Path.parts path = first :: segments path ∧
    Path.parts (pathLabel path) = first :: labelled (segments path) ∧
    pathLabel path = "/".intercalate (first :: labelled (segments path)) := by
  obtain ⟨first, parts, label⟩ := parts_cons path
  obtain ⟨head, later⟩ := segments_whole parts
  exact ⟨first, parts, by rw [label, parts_intercalate head (whole_labelled later)], label⟩

theorem segments_label (path : String) : segments (pathLabel path) = labelled (segments path) := by
  obtain ⟨first, -, parts, -⟩ := parts_label path
  rw [segments, parts, List.tail_cons]

theorem label_eq_iff {path other : String} (head : (Path.parts path).head? = (Path.parts other).head?) :
    pathLabel path = pathLabel other ↔ labelled (segments path) = labelled (segments other) := by
  obtain ⟨first, parts, -, label⟩ := parts_label path
  obtain ⟨second, others, -, also⟩ := parts_label other
  obtain rfl : first = second := by simpa [parts, others] using head
  constructor
  · intro same
    rw [← segments_label, same, segments_label]
  · intro same
    rw [label, also, same]

end Paths

section Changes

def renumber (number : String → String) (segment : String) : String :=
  if Digits segment then number segment else segment

theorem renumbers {number : String → String} (digits : ∀ segment, Digits segment → Digits (number segment)) :
    Renumbers (renumber number) where
  number {segment} given := by
    rw [renumber, if_pos given]
    exact digits segment given
  other given := if_neg given

theorem Renumbers.fixed {change : String → String} (renumbers : Renumbers change) {path : List String}
    (numberless : ∀ segment ∈ path, ¬ Digits segment) : path.map change = path :=
  (List.map_congr_left fun segment member => renumbers.other (numberless segment member)).trans (List.map_id path)

private theorem digits_longer {segment : String} (digits : Digits segment) : Digits (segment ++ "0") where
  filled := by simp
  each := by
    intro c member
    rw [String.toList_append, List.mem_append] at member
    obtain member | member := member
    · exact digits.each c member
    · obtain rfl : c = '0' := by simpa using member
      decide

variable {path : String}

private theorem label_alike {other : String} (alike : Alike path other)
    (numberless : ∀ segment ∈ labelled (segments path), ¬ Digits segment) : pathLabel other = pathLabel path := by
  have zero : Renumbers (renumber fun _ => "0") := renumbers fun _ _ => by decide
  have same : (segments path).map (renumber fun _ => "0") = (segments other).map (renumber fun _ => "0") := by
    rw [← List.forall₂_eq_eq_eq, List.forall₂_map_left_iff, List.forall₂_map_right_iff]
    refine alike.each.imp ?_
    rintro one two (rfl | ⟨first, second⟩)
    · rfl
    · rw [renumber, renumber, if_pos first, if_pos second]
  have labels : (labelled (segments path)).map (renumber fun _ => "0") =
      (labelled (segments other)).map (renumber fun _ => "0") := by
    rw [← zero.label, ← zero.label, same]
  have numberless_other : ∀ segment ∈ labelled (segments other), ¬ Digits segment := by
    intro segment member number
    have shown := List.mem_map_of_mem (f := renumber fun _ => "0") member
    rw [← labels, zero.fixed numberless] at shown
    exact numberless _ shown (zero.number number)
  rw [zero.fixed numberless, zero.fixed numberless_other] at labels
  exact (label_eq_iff alike.head.symm).mpr labels.symm

private theorem label_longer (path : String) : ∃ other, Alike path other ∧
    labelled (segments other) = (labelled (segments path)).map (renumber (· ++ "0")) := by
  have longer : Renumbers (renumber (· ++ "0")) := renumbers fun _ => digits_longer
  obtain ⟨first, parts, -⟩ := parts_cons path
  obtain ⟨head, later⟩ := segments_whole parts
  have longer_whole : ∀ part ∈ (segments path).map (renumber (· ++ "0")), '/' ∉ part.toList := by
    intro part member
    obtain ⟨segment, given, rfl⟩ := List.mem_map.mp member
    unfold renumber
    split
    · simpa using later segment given
    · exact later segment given
  have others := parts_intercalate head longer_whole
  refine ⟨"/".intercalate (first :: (segments path).map (renumber (· ++ "0"))), ⟨?_, ?_⟩, ?_⟩
  · rw [parts, others, List.head?_cons, List.head?_cons]
  · rw [segments.eq_1 ("/".intercalate _), others, List.tail_cons, List.forall₂_map_right_iff, List.forall₂_same]
    intro segment _
    unfold renumber
    split
    next digits => exact .inr ⟨digits, digits_longer digits⟩
    next => exact .inl rfl
  · rw [segments.eq_1 ("/".intercalate _), others, List.tail_cons, longer.label]

end Changes

/-- A label has no number if and only if no two numbers follow one another in the path, the identifiers of projects apart.
Exactly then a label stays as it is when it is labelled once more, and exactly then all paths that differ from this one in
nothing but numbers are counted with it. A number that is left stands directly behind a replacement, and the label of a
label has none. -/
theorem numbers_hidden (path : String) :
    ((∀ segment ∈ segments (pathLabel path), ¬ Digits segment) ↔ Spread (hideProjects (segments path))) ∧
      (pathLabel (pathLabel path) = pathLabel path ↔ Spread (hideProjects (segments path))) ∧
      ((∀ other, Alike path other → pathLabel other = pathLabel path) ↔ Spread (hideProjects (segments path))) ∧
      (Path.parts (pathLabel path)).IsChain (fun before segment => Digits segment → before = ":id") ∧
      ∀ segment ∈ segments (pathLabel (pathLabel path)), ¬ Digits segment := by
  have numberless : (∀ segment ∈ labelled (segments path), ¬ Digits segment) ↔ Spread (hideProjects (segments path)) :=
    numberless_iff
  rw [segments_label, segments_label, segments_label, ← numberless]
  refine ⟨.rfl, ?_, ⟨fun alike segment member number => ?_, fun numberless other alike => label_alike alike numberless⟩,
    ?_, ?_⟩
  · obtain ⟨first, parts, label, -⟩ := parts_label path
    rw [label_eq_iff (by rw [parts, label]; rfl), segments_label, labelled_twice]
  · obtain ⟨other, differs, longer⟩ := label_longer path
    have same := (label_eq_iff differs.head.symm).mp (alike other differs)
    rw [longer] at same
    have kept := List.map_inj_left.mp (same.trans (List.map_id _).symm) segment member
    rw [renumber, if_pos number] at kept
    simp at kept
  · obtain ⟨first, -, parts, -⟩ := parts_label path
    rw [parts]
    exact numbers_follow first _
  · have settled : hideProjects (labelled (segments path)) = labelled (segments path) := labelled_settled _
    have spread : Spread (labelled (segments path)) := spread_hidden _
    exact numberless_iff.mpr (by rwa [settled])

/-- Of two numbers that follow one another the second shows in the label, which is not settled by it. -/
theorem second_number_left : pathLabel "/1/2" = "/:id/2" ∧ "2" ∈ segments (pathLabel "/1/2") ∧ Digits "2" ∧
    pathLabel (pathLabel "/1/2") = "/:id/:id" ∧ Alike "/1/2" "/1/3" ∧ pathLabel "/1/3" = "/:id/3" := by
  have first : segments "/1/2" = ["1", "2"] := by decide +kernel
  have second : segments "/1/3" = ["1", "3"] := by decide +kernel
  refine ⟨by decide +kernel, by decide +kernel, by decide, by decide +kernel, ⟨by decide +kernel, ?_⟩, by decide +kernel⟩
  rw [first, second]
  exact .cons (.inl rfl) (.cons (.inr (by decide)) .nil)

section Identifiers
variable {id rest : String}

structure IsIdentifier (id : String) : Prop where
  filled : id ≠ ""
  whole : '/' ∉ id.toList

/-- What may stand behind a segment: nothing, or a slash and whatever follows it. -/
def Behind (rest : String) : Prop :=
  rest = "" ∨ ∃ more, rest = "/" ++ more

private theorem parts_project (identifier : IsIdentifier id) (behind : Behind rest) :
    Path.parts ("/projects/" ++ id ++ rest) = "" :: "projects" :: id :: segments rest ∧
      Path.parts rest = "" :: segments rest := by
  have word : "/projects/" = "" ++ "/" ++ "projects" ++ "/" := by decide
  have empty : Path.parts "" = [""] := by decide
  have front : Path.parts ("" ++ "/" ++ "projects") = ["", "projects"] := by decide +kernel
  obtain rfl | ⟨more, rfl⟩ := behind
  · rw [String.append_empty, word, parts_slash, parts_whole identifier.whole, front, segments, empty]
    exact ⟨rfl, rfl⟩
  · have tail : Path.parts ("/" ++ more) = "" :: Path.parts more := by
      rw [← String.empty_append (s := "/"), parts_slash, empty]
      rfl
    rw [← String.append_assoc, parts_slash, word, parts_slash, parts_whole identifier.whole, front, segments, tail]
    exact ⟨rfl, rfl⟩

private theorem label_project (identifier : IsIdentifier id) (behind : Behind rest) :
    pathLabel ("/projects/" ++ id ++ rest) = "/projects/:project_id" ++ pathLabel rest := by
  obtain ⟨parts, behind_parts⟩ := parts_project identifier behind
  obtain ⟨first, whole, -, label⟩ := parts_label ("/projects/" ++ id ++ rest)
  obtain ⟨empty, others, -, behind_label⟩ := parts_label rest
  obtain ⟨rfl, segments_path⟩ := List.cons.inj (whole.symm.trans parts)
  obtain ⟨rfl, -⟩ := List.cons.inj (others.symm.trans behind_parts)
  have hidden : labelled ("projects" :: id :: segments rest) =
      "projects" :: ":project_id" :: labelled (segments rest) := by
    rw [labelled, hideProjects_pair _ identifier.filled, hideNumbers_kept _ not_digits_projects,
      hideNumbers_kept _ not_digits_project, labelled]
  have word : "/projects/:project_id" = "" ++ "/" ++ ("projects" ++ "/" ++ ":project_id") := by decide
  rw [label, behind_label, segments_path, hidden, String.intercalate_cons_cons, String.intercalate_cons_cons,
    intercalate_head ":project_id", word]
  simp only [String.append_assoc]

/-- Paths that differ in the identifier of a project have one label. -/
theorem projects_unseen {first second rest : String} (one : IsIdentifier first) (two : IsIdentifier second)
    (behind : Behind rest) :
    pathLabel ("/projects/" ++ first ++ rest) = pathLabel ("/projects/" ++ second ++ rest) ∧
      pathLabel ("/projects/" ++ first ++ rest) = "/projects/:project_id" ++ pathLabel rest := by
  rw [label_project one behind, label_project two behind]
  exact ⟨rfl, rfl⟩

theorem hostile_identifiers_unseen :
    IsIdentifier "projects" ∧ IsIdentifier "7%2F$1:" ∧ Behind "/projects/42/render" ∧
      pathLabel ("/projects/" ++ "projects" ++ "/projects/42/render") =
        pathLabel ("/projects/" ++ "7%2F$1:" ++ "/projects/42/render") ∧
      pathLabel ("/projects/" ++ "projects" ++ "/projects/42/render") =
        "/projects/:project_id" ++ pathLabel "/projects/42/render" := by
  have one : IsIdentifier "projects" := ⟨by decide, by decide⟩
  have two : IsIdentifier "7%2F$1:" := ⟨by decide, by decide⟩
  have behind : Behind "/projects/42/render" := .inr ⟨"projects/42/render", by decide⟩
  exact ⟨one, two, behind, projects_unseen one two behind⟩

end Identifiers

end Montage.Proofs.PathLabels
