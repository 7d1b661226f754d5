import Montage.Proofs.PathLabels

/-! How a label comes about, character by character: two rules go over the text of a path one after the other, each from
left to right. Where a match ends decides where a rule goes on, so that the slash behind a number is used up. -/

namespace Montage.Proofs.LabelPasses
open Metrics PathJoin PathLabels

/-- What a rule takes from the front of a text, what it puts there, and the text behind with which it goes on. -/
abbrev Rule := List Char → List Char → List Char → Prop

/-- What is left of a text to which a rule was applied from left to right, wherever it could be. What it took, and what
it put there, is not looked at again. -/
inductive Rewritten (rule : Rule) : List Char → List Char → Prop where
  | ends : Rewritten rule [] []
  | hit {text put rest out : List Char} (taken : rule text put rest) (later : Rewritten rule rest out) :
      Rewritten rule text (put ++ out)
  | miss {c : Char} {text out : List Char} (never : ∀ put rest, ¬ rule (c :: text) put rest)
      (later : Rewritten rule text out) : Rewritten rule (c :: text) (c :: out)

def Stops (text : List Char) : Prop :=
  text = [] ∨ ∃ rest, text = '/' :: rest

/-- The segment behind `projects`, which is as long as it can be. -/
inductive TakesIdentifier : Rule where
  | mk {id rest : List Char} (filled : id ≠ []) (whole : '/' ∉ id) (stops : Stops rest) :
      TakesIdentifier ("/projects/".toList ++ id ++ rest) "/projects/:project_id".toList rest

/-- Digits between slashes, with both of these, or digits behind a slash at the end. -/
inductive TakesNumber : Rule where
  | inner {digits rest : List Char} (filled : digits ≠ []) (each : ∀ c ∈ digits, '0' ≤ c ∧ c ≤ '9') :
      TakesNumber ('/' :: digits ++ '/' :: rest) "/:id/".toList rest
  | last {digits : List Char} (filled : digits ≠ []) (each : ∀ c ∈ digits, '0' ≤ c ∧ c ≤ '9') :
      TakesNumber ('/' :: digits) "/:id".toList []

section Cutting

theorem cut_unique {one two first second : List Char} (whole : '/' ∉ one) (also : '/' ∉ two) (stops : Stops first)
    (ends : Stops second) (same : one ++ first = two ++ second) : one = two ∧ first = second := by
  have front {name rest : List Char} (whole : '/' ∉ name) (stops : Stops rest) :
      (name ++ rest).takeWhile (· ≠ '/') = name := by
    have passes : ∀ c ∈ name, decide (c ≠ '/') = true := fun c member =>
      decide_eq_true fun slash => whole (slash ▸ member)
    rw [List.takeWhile_append_of_pos passes]
    obtain rfl | ⟨_, rfl⟩ := stops <;> simp
  have names : one = two := by rw [← front whole stops, same, front also ends]
  subst names
  exact ⟨rfl, List.append_cancel_left same⟩

def text (segments : List String) : List Char :=
  segments.flatMap fun segment => '/' :: segment.toList

theorem text_stops (segments : List String) : Stops (text segments) := by
  cases segments with
  | nil => exact .inl rfl
  | cons first rest => exact .inr ⟨first.toList ++ text rest, rfl⟩

theorem intercalate_text (first : String) (segments : List String) :
    ("/".intercalate (first :: segments)).toList = first.toList ++ text segments := by
  induction segments generalizing first with
  | nil => exact (List.append_nil _).symm
  | cons next rest ih =>
    rw [String.intercalate_cons_cons, String.toList_append, String.toList_append, ih next, List.append_assoc]
    rfl

private theorem intercalate_parts (path : String) : "/".intercalate (Path.parts path) = path := by
  have joined (letters : List Char) : ∃ first rest, Text.pieces (· = '/') letters = first :: rest ∧
      first ++ rest.flatMap ('/' :: ·) = letters := by
    induction letters with
    | nil => exact ⟨[], [], rfl, rfl⟩
    | cons c letters ih =>
      obtain ⟨first, rest, pieces, same⟩ := ih
      by_cases slash : c = '/'
      · refine ⟨[], first :: rest, by simp [Text.pieces, slash, pieces], ?_⟩
        simp [slash, ← same]
      · exact ⟨c :: first, rest, by simp [Text.pieces, slash, pieces], by simp [← same]⟩
  obtain ⟨first, rest, pieces, same⟩ := joined path.toList
  rw [← String.toList_inj, Path.parts, pieces, List.map_cons, intercalate_text, text, List.flatMap_map]
  simpa using same

end Cutting

section Rules
variable {rule : Rule} {path put rest : List Char}

theorem takesIdentifier_slash (taken : TakesIdentifier path put rest) : ∃ text, path = '/' :: text := by
  cases taken with
  | mk => exact ⟨_, rfl⟩

theorem takesNumber_slash (taken : TakesNumber path put rest) : ∃ text, path = '/' :: text := by
  cases taken with
  | inner => exact ⟨_, rfl⟩
  | last => exact ⟨_, rfl⟩

section Slashes
variable (slash : ∀ {path put rest}, rule path put rest → ∃ text, path = '/' :: text)
include slash

theorem Rewritten.skip {name rest out : List Char} (whole : '/' ∉ name) (later : Rewritten rule rest out) :
    Rewritten rule (name ++ rest) (name ++ out) := by
  induction name with
  | nil => exact later
  | cons c name ih =>
    rw [List.mem_cons, not_or] at whole
    refine .miss (fun put rest taken => ?_) (ih whole.2)
    obtain ⟨text, same⟩ := slash taken
    exact whole.1 (List.head_eq_of_cons_eq same).symm

theorem Rewritten.unique
    (one_way : ∀ {path put rest other after}, rule path put rest → rule path other after → put = other ∧ rest = after)
    {path one two : List Char} (first : Rewritten rule path one) (second : Rewritten rule path two) : one = two := by
  have empty : ∀ put rest, ¬ rule [] put rest := by
    intro put rest taken
    obtain ⟨text, same⟩ := slash taken
    cases same
  induction first generalizing two with
  | ends =>
    cases second with
    | ends => rfl
    | hit taken => exact absurd taken (empty _ _)
  | hit taken _ ih =>
    cases second with
    | ends => exact absurd taken (empty _ _)
    | hit other later =>
      obtain ⟨rfl, rfl⟩ := one_way taken other
      rw [ih later]
    | miss never => exact absurd taken (never _ _)
  | miss never _ ih =>
    cases second with
    | hit taken => exact absurd taken (never _ _)
    | miss _ later => rw [ih later]

end Slashes

end Rules

section Passes

private theorem takesIdentifier_named {segment : String} {rest : List String} {put after : List Char}
    (whole : '/' ∉ segment.toList)
    (taken : TakesIdentifier ('/' :: segment.toList ++ text rest) put after) :
    segment = "projects" ∧ ∃ next later, rest = next :: later ∧ next ≠ "" := by
  generalize same : '/' :: segment.toList ++ text rest = path at taken
  obtain @⟨id, after, filled, without, stops⟩ := taken
  have word : "/projects/".toList ++ id ++ after = '/' :: ("projects".toList ++ ('/' :: (id ++ after))) := by simp
  rw [word, List.cons_append] at same
  obtain ⟨named, behind⟩ := cut_unique whole (by decide) (text_stops rest) (.inr ⟨_, rfl⟩) (List.tail_eq_of_cons_eq same)
  refine ⟨String.toList_inj.mp named, ?_⟩
  cases rest with
  | nil => cases behind
  | cons next later =>
    refine ⟨next, later, rfl, ?_⟩
    rintro rfl
    have follows : "".toList ++ text later = id ++ after := List.tail_eq_of_cons_eq behind
    exact filled (cut_unique (by decide) without (text_stops later) stops follows).1.symm

private theorem takesNumber_digits {segment : String} {rest : List String} {put after : List Char}
    (whole : '/' ∉ segment.toList) (taken : TakesNumber ('/' :: segment.toList ++ text rest) put after) :
    Digits segment := by
  have digits {name tail : List Char} (filled : name ≠ []) (each : ∀ c ∈ name, '0' ≤ c ∧ c ≤ '9') (stops : Stops tail)
      (same : '/' :: segment.toList ++ text rest = '/' :: name ++ tail) : Digits segment := by
    have without : '/' ∉ name := fun slash => absurd (each '/' slash) (by decide)
    obtain ⟨rfl, -⟩ := cut_unique whole without (text_stops rest) stops (List.tail_eq_of_cons_eq same)
    exact ⟨by simpa using filled, each⟩
  generalize same : '/' :: segment.toList ++ text rest = path at taken
  cases taken with
  | inner filled each => exact digits filled each (.inr ⟨_, rfl⟩) same
  | last filled each => exact digits filled each (.inl rfl) (same.trans (List.append_nil _).symm)

private theorem identifiers_pass {path : List String} (whole : ∀ segment ∈ path, '/' ∉ segment.toList) :
    Rewritten TakesIdentifier (text path) (text (hideProjects path)) := by
  have miss {segment : String} {rest : List String} {out : List Char} (whole : '/' ∉ segment.toList)
      (kept : ¬ (segment = "projects" ∧ ∃ next later, rest = next :: later ∧ next ≠ ""))
      (later : Rewritten TakesIdentifier (text rest) out) :
      Rewritten TakesIdentifier (text (segment :: rest)) ('/' :: segment.toList ++ out) :=
    .miss (fun _ _ taken => kept (takesIdentifier_named whole taken)) (later.skip takesIdentifier_slash whole)
  induction path using hideProjects.induct with
  | case1 => exact .ends
  | case2 last => exact miss (whole last (by simp)) (by simp) .ends
  | case3 segment next rest named ih =>
    obtain ⟨rfl, named⟩ := named
    simp only [List.forall_mem_cons] at whole
    obtain ⟨-, next_whole, rest_whole⟩ := whole
    rw [hideProjects_pair rest named]
    have taken : TakesIdentifier ("/projects/".toList ++ next.toList ++ text rest) "/projects/:project_id".toList
        (text rest) := .mk (by simpa using named) next_whole (text_stops rest)
    have passed := Rewritten.hit taken (ih rest_whole)
    simpa [text] using passed
  | case4 segment next rest kept ih =>
    obtain ⟨here, others⟩ := List.forall_mem_cons.mp whole
    rw [hideProjects_kept rest kept]
    exact miss here (by simpa using kept) (ih others)

private theorem numbers_pass {path : List String} (whole : ∀ segment ∈ path, '/' ∉ segment.toList) :
    Rewritten TakesNumber (text path) (text (hideNumbers path)) := by
  have miss {segment : String} {rest : List String} {out : List Char} (whole : '/' ∉ segment.toList)
      (kept : ¬ Digits segment) (later : Rewritten TakesNumber (text rest) out) :
      Rewritten TakesNumber (text (segment :: rest)) ('/' :: segment.toList ++ out) :=
    .miss (fun _ _ taken => kept (takesNumber_digits whole taken)) (later.skip takesNumber_slash whole)
  induction path using hideNumbers.induct with
  | case1 => exact .ends
  | case2 last =>
    by_cases number : Digits last
    · rw [hideNumbers_last number, text, List.flatMap_singleton]
      exact .hit (.last (by simpa using number.filled) number.each) .ends
    · rw [hideNumbers_kept _ number]
      exact miss (whole last (by simp)) number .ends
  | case3 segment next rest number ih =>
    have number := isNumber_iff.mp number
    simp only [List.forall_mem_cons] at whole
    obtain ⟨-, next_whole, rest_whole⟩ := whole
    rw [hideNumbers_pair rest number]
    -- The slash before `next` is taken as well, so that the pass goes on behind it.
    have taken : TakesNumber ('/' :: segment.toList ++ '/' :: (next.toList ++ text rest)) "/:id/".toList
        (next.toList ++ text rest) := .inner (by simpa using number.filled) number.each
    have passed := Rewritten.hit taken ((ih rest_whole).skip takesNumber_slash next_whole)
    simpa [text] using passed
  | case4 segment next rest number ih =>
    obtain ⟨here, others⟩ := List.forall_mem_cons.mp whole
    have kept : ¬ Digits segment := fun digits => number (isNumber_iff.mpr digits)
    rw [hideNumbers_kept _ kept]
    exact miss here kept (ih others)

private theorem takesIdentifier_unique {path put rest other after : List Char} (one : TakesIdentifier path put rest)
    (two : TakesIdentifier path other after) : put = other ∧ rest = after := by
  obtain ⟨-, whole, stops⟩ := one
  generalize same : "/projects/".toList ++ _ ++ rest = path at two
  obtain ⟨-, also, ends⟩ := two
  rw [List.append_assoc, List.append_assoc] at same
  exact ⟨rfl, (cut_unique whole also stops ends (List.append_cancel_left same)).2⟩

private theorem takesNumber_unique {path put rest other after : List Char} (one : TakesNumber path put rest)
    (two : TakesNumber path other after) : put = other ∧ rest = after := by
  have without {digits : List Char} (each : ∀ c ∈ digits, '0' ≤ c ∧ c ≤ '9') : '/' ∉ digits := fun slash =>
    absurd (each '/' slash) (by decide)
  have stops (rest : List Char) : Stops ('/' :: rest) := .inr ⟨rest, rfl⟩
  cases one with
  | @inner digits _ filled each =>
    generalize same : '/' :: digits ++ '/' :: rest = path at two
    cases two with
    | inner _ also =>
      obtain ⟨-, same⟩ := cut_unique (without each) (without also) (stops _) (stops _) (List.tail_eq_of_cons_eq same)
      exact ⟨rfl, List.tail_eq_of_cons_eq same⟩
    | last _ also =>
      have ends := (List.tail_eq_of_cons_eq same).trans (List.append_nil _).symm
      cases (cut_unique (without each) (without also) (stops _) (.inl rfl) ends).2
  | @last digits filled each =>
    generalize same : '/' :: digits = path at two
    cases two with
    | inner _ also =>
      have ends := (List.append_nil _).trans (List.tail_eq_of_cons_eq same)
      cases (cut_unique (without each) (without also) (.inl rfl) (stops _) ends).2
    | last => exact ⟨rfl, rfl⟩

end Passes

/-- A label is what two rules leave of a path, first that for the identifiers of projects and then that for numbers. -/
theorem label_passes (path label : String) : pathLabel path = label ↔
    ∃ middle, Rewritten TakesIdentifier path.toList middle ∧ Rewritten TakesNumber middle label.toList := by
  obtain ⟨first, parts, -, joined⟩ := parts_label path
  obtain ⟨head, later⟩ := segments_whole parts
  have path_text : path.toList = first.toList ++ text (segments path) := by
    rw [← intercalate_text, ← parts, intercalate_parts]
  have label_text : (pathLabel path).toList = first.toList ++ text (labelled (segments path)) := by
    rw [joined, intercalate_text]
  have identifiers := (identifiers_pass later).skip takesIdentifier_slash head
  have numbers := (numbers_pass (whole_hidden later)).skip takesNumber_slash head
  rw [← path_text] at identifiers
  rw [← labelled, ← label_text] at numbers
  constructor
  · rintro rfl
    exact ⟨_, identifiers, numbers⟩
  · rintro ⟨middle, first_pass, second_pass⟩
    obtain rfl := first_pass.unique takesIdentifier_slash takesIdentifier_unique identifiers
    have same := numbers.unique takesNumber_slash takesNumber_unique second_pass
    exact String.toList_inj.mp same

end Montage.Proofs.LabelPasses
