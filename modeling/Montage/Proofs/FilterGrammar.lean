import Montage.Filter.Plan

/-! The notation of filter graphs as the engine reads it. Nodes stand between semicolons and filters
between commas; pads and labels stand in brackets. None of these signs separates anything inside
single quotes or after a backslash. A graph whose texts keep to that is read back as it was. -/

namespace Montage.Proofs.FilterGrammar
open Montage.Filter

/-- A node as it is read, with its filters as texts. -/
structure Reading where
  inputs : List Pad
  filters : List String
  outputs : List String
  deriving DecidableEq

inductive Mode where
  | bare
  /-- The next character means itself. -/
  | escaped
  /-- Every character up to the next quote means itself. -/
  | quoted
  deriving DecidableEq

def Mode.next : Mode → Char → Mode
  | .bare, c => if c = '\\' then .escaped else if c = '\'' then .quoted else .bare
  | .escaped, _ => .bare
  | .quoted, c => if c = '\'' then .bare else .quoted

def separates (c : Char) : Bool :=
  c = '[' || c = ']' || c = ',' || c = ';'

/-- The text of a filter up to the first bare sign, and what follows. Quotes have to be closed. -/
def readFilter : Mode → List Char → Option (List Char × List Char)
  | mode, [] => if mode = .bare then some ([], []) else none
  | mode, c :: rest =>
    if mode = .bare ∧ separates c then some ([], c :: rest)
    else (readFilter (mode.next c) rest).map fun (text, left) => (c :: text, left)

theorem readFilter_split {mode : Mode} {input text left : List Char}
    (read : readFilter mode input = some (text, left)) : input = text ++ left := by
  induction input generalizing mode text with
  | nil =>
    unfold readFilter at read
    split at read <;> cases read
    rfl
  | cons c rest ih =>
    unfold readFilter at read
    split at read
    · cases read
      rfl
    · obtain ⟨⟨tail, after⟩, later, same⟩ := Option.map_eq_some_iff.mp read
      cases same
      exact congrArg (c :: ·) (ih later)

def readFilters (input : List Char) : Option (List String × List Char) :=
  match _read : readFilter .bare input with
  | none => none
  | some (first, ',' :: rest) => (readFilters rest).map fun (others, left) => (String.ofList first :: others, left)
  | some (first, left) => some ([String.ofList first], left)
termination_by input.length
decreasing_by
  have := congrArg List.length (readFilter_split _read)
  simp only [List.length_append, List.length_cons] at this
  omega

private theorem cutOnce_length {separator : Char → Bool} {input before after : List Char}
    (cut : Text.cutOnce separator input = some (before, after)) : after.length < input.length := by
  unfold Text.cutOnce at cut
  split at cut
  · cases cut
  next c rest found =>
    cases cut
    have shorter := (List.dropWhile_sublist (fun c => !separator c) (l := input)).length_le
    rw [found] at shorter
    exact Nat.lt_of_succ_le shorter

def readGroups (input : List Char) : Option (List (List Char) × List Char) :=
  match input with
  | '[' :: rest =>
    match _cut : Text.cutOnce (· = ']') rest with
    | none => none
    | some (name, after) => (readGroups after).map fun (names, left) => (name :: names, left)
  | _ => some ([], input)
termination_by input.length
decreasing_by
  have := cutOnce_length _cut
  simp only [List.length_cons]
  omega

/-- A pad is a number with the letter of a stream after a colon, or else a label. -/
def padOf (name : List Char) : Pad :=
  match Text.cutOnce (· = ':') name with
  | some (digits, kind) =>
    if digits.isEmpty || !digits.all Char.isDigit then .label (String.ofList name)
    else if kind = ['v'] then .input (Nat.ofDigitChars 10 digits 0) .video
    else if kind = ['a'] then .input (Nat.ofDigitChars 10 digits 0) .sound
    else .label (String.ofList name)
  | none => .label (String.ofList name)

def readNode (input : List Char) : Option (Reading × List Char) :=
  match readGroups input with
  | none => none
  | some (inputs, rest) =>
    match readFilters rest with
    | none => none
    | some (filters, rest) =>
      match readGroups rest with
      | none => none
      | some (outputs, rest) => some (⟨inputs.map padOf, filters, outputs.map String.ofList⟩, rest)

private theorem readGroups_length {input rest : List Char} {names : List (List Char)}
    (read : readGroups input = some (names, rest)) : rest.length ≤ input.length := by
  fun_induction readGroups input generalizing names with
  | case1 => cases read
  | case2 tail name after cut ih =>
    obtain ⟨⟨others, left⟩, later, same⟩ := Option.map_eq_some_iff.mp read
    cases same
    have first := cutOnce_length cut
    have second := ih later
    simp only [List.length_cons]
    omega
  | case3 => cases read; exact Nat.le_refl _

private theorem readFilters_length {input rest : List Char} {filters : List String}
    (read : readFilters input = some (filters, rest)) : rest.length ≤ input.length := by
  fun_induction readFilters input generalizing filters with
  | case1 => cases read
  | case2 input first tail split ih =>
    obtain ⟨⟨others, left⟩, later, same⟩ := Option.map_eq_some_iff.mp read
    cases same
    have whole := congrArg List.length (readFilter_split split)
    have second := ih later
    simp only [List.length_append, List.length_cons] at whole
    omega
  | case3 input first left _ split =>
    cases read
    have whole := congrArg List.length (readFilter_split split)
    simp only [List.length_append] at whole
    omega

private theorem readNode_length {input rest : List Char} {node : Reading}
    (read : readNode input = some (node, rest)) : rest.length ≤ input.length := by
  unfold readNode at read
  split at read
  · cases read
  next pads =>
    split at read
    · cases read
    next filters =>
      split at read
      · cases read
      next labels =>
        cases read
        have first := readGroups_length pads
        have second := readFilters_length filters
        have third := readGroups_length labels
        omega

/-- Nodes between semicolons, up to the end. -/
def readNodes (input : List Char) : Option (List Reading) :=
  match _read : readNode input with
  | none => none
  | some (node, []) => some [node]
  | some (node, ';' :: rest) => (readNodes rest).map (node :: ·)
  | some _ => none
termination_by input.length
decreasing_by
  have := readNode_length _read
  simp only [List.length_cons] at this
  omega

def parse (text : String) : Option (List Reading) :=
  readNodes text.toList

/-- Where the reader stands after characters without a bare sign among them. -/
def scan : Mode → List Char → Option Mode
  | mode, [] => some mode
  | mode, c :: rest => if mode = .bare ∧ separates c then none else scan (mode.next c) rest

theorem scan_append (mode : Mode) (first second : List Char) :
    scan mode (first ++ second) = (scan mode first).bind fun middle => scan middle second := by
  induction first generalizing mode with
  | nil => rfl
  | cons c rest ih =>
    simp only [List.cons_append, scan]
    split
    · rfl
    · exact ih _

/-- A text that is read as one filter. -/
structure Whole (text : List Char) : Prop where
  some_char : text ≠ []
  closed : scan .bare text = some .bare

/-- What follows a filter starts with a sign, if it is not the end. -/
def Stops (rest : List Char) : Prop :=
  ∀ c ∈ rest.head?, separates c = true

private theorem readFilter_append {mode : Mode} {text rest : List Char} (closed : scan mode text = some .bare)
    (stops : Stops rest) : readFilter mode (text ++ rest) = some (text, rest) := by
  induction text generalizing mode with
  | nil =>
    cases closed
    cases rest with
    | nil => rfl
    | cons c rest => simp [readFilter, stops c rfl]
  | cons c tail ih =>
    unfold scan at closed
    split at closed
    · cases closed
    next passes => simp [readFilter, passes, ih closed]

private theorem readFilters_comma {input text rest : List Char}
    (first : readFilter .bare input = some (text, ',' :: rest)) :
    readFilters input = (readFilters rest).map fun (others, left) => (String.ofList text :: others, left) := by
  rw [readFilters]
  split <;> simp_all

private theorem readFilters_last {input text rest : List Char} (first : readFilter .bare input = some (text, rest))
    (last : rest.head? ≠ some ',') : readFilters input = some ([String.ofList text], rest) := by
  rw [readFilters]
  split
  next absent => cases first.symm.trans absent
  next found =>
    cases first.symm.trans found
    exact absurd rfl last
  next found =>
    cases first.symm.trans found
    rfl

/-- Filters that are each read as one are read back from between commas. -/
private theorem readFilters_append {texts : List String} (some_text : texts ≠ [])
    (whole : ∀ text ∈ texts, Whole text.toList) {rest : List Char} (stops : Stops rest)
    (last : rest.head? ≠ some ',') :
    readFilters ((",".intercalate texts).toList ++ rest) = some (texts, rest) := by
  rw [String.toList_intercalate]
  induction texts with
  | nil => exact absurd rfl some_text
  | cons text others ih =>
    have closed := (whole text (by simp)).closed
    cases others with
    | nil => simpa [List.intercalate] using readFilters_last (readFilter_append closed stops) last
    | cons next others =>
      have later := ih (by simp) fun other member => whole other (List.mem_cons_of_mem _ member)
      have split : ",".toList.intercalate ((text :: next :: others).map String.toList) ++ rest =
          text.toList ++ ',' :: (",".toList.intercalate ((next :: others).map String.toList) ++ rest) := by
        simp [List.intercalate]
      rw [split, readFilters_comma (readFilter_append closed (by simp [Stops, separates])), later]
      simp

/-- A text between brackets has no closing bracket of its own. -/
def inBrackets (text : List Char) : List Char :=
  '[' :: text ++ [']']

private theorem readGroups_append {names : List (List Char)} (closed : ∀ name ∈ names, ']' ∉ name)
    {rest : List Char} (last : rest.head? ≠ some '[') :
    readGroups (names.flatMap inBrackets ++ rest) = some (names, rest) := by
  induction names with
  | nil =>
    change readGroups rest = some ([], rest)
    rw [readGroups]
    rintro tail rfl
    exact last rfl
  | cons name others ih =>
    have later := ih fun other member => closed other (List.mem_cons_of_mem _ member)
    have cut : Text.cutOnce (· = ']') (name ++ ']' :: (others.flatMap inBrackets ++ rest)) =
        some (name, others.flatMap inBrackets ++ rest) :=
      Text.cutOnce_append
        (fun c member => decide_eq_false fun same => closed name (by simp) (same ▸ member)) (by simp)
    have split : (name :: others).flatMap inBrackets ++ rest =
        '[' :: (name ++ ']' :: (others.flatMap inBrackets ++ rest)) := by simp [inBrackets]
    rw [split, readGroups]
    split <;> simp_all

/-- A name that can stand in brackets and is not taken for an input. -/
def isName (name : String) : Bool :=
  name.toList.all Char.isAlphanum

theorem isName_iff {name : String} : isName name = true ↔ ∀ c ∈ name.toList, c.isAlphanum = true :=
  List.all_eq_true

def inside : Pad → List Char
  | .input index .video => Nat.toDigits 10 index ++ [':', 'v']
  | .input index .sound => Nat.toDigits 10 index ++ [':', 'a']
  | .label name => name.toList

private theorem pad_text (pad : Pad) : pad.text.toList = inBrackets (inside pad) := by
  rcases pad with ⟨index, _ | _⟩ | name <;> simp [Pad.text, bracketed, inside, inBrackets]

theorem isDigit_ne {c other : Char} (digit : c.isDigit = true) (apart : other.isDigit = false) : c ≠ other := by
  rintro rfl
  simp_all

theorem digits_isDigit (number : Nat) : ∀ c ∈ Nat.toDigits 10 number, c.isDigit = true :=
  fun _ member => Nat.isDigit_of_mem_toDigits (by decide) (by decide) member

private theorem padOf_input (index : Nat) (stream : Stream) :
    padOf (inside (.input index stream)) = .input index stream := by
  have cut : ∀ kind, Text.cutOnce (· = ':') (Nat.toDigits 10 index ++ ':' :: kind) =
      some (Nat.toDigits 10 index, kind) := fun kind =>
    Text.cutOnce_append (fun c member => decide_eq_false (isDigit_ne (digits_isDigit index c member) (by decide)))
      (by simp)
  have digits : (Nat.toDigits 10 index).all Char.isDigit = true :=
    List.all_eq_true.mpr (digits_isDigit index)
  cases stream <;> simp [padOf, inside, cut, digits, Nat.toDigits_ne_nil]

theorem name_ne {name : String} (named : isName name = true) {c other : Char} (member : c ∈ name.toList)
    (apart : other.isAlphanum = false) : c ≠ other := by
  rintro rfl
  exact absurd (isName_iff.mp named c member) (by simp [apart])

private theorem padOf_label {name : String} (named : isName name = true) :
    padOf (inside (.label name)) = .label name := by
  have uncut : Text.cutOnce (· = ':') name.toList = none := by
    have passes : ∀ c ∈ name.toList, (!decide (c = ':')) = true := fun c member => by
      simpa using name_ne named member (by decide)
    have skipped : (name.toList ++ []).dropWhile (fun c => !decide (c = ':')) = [] :=
      List.dropWhile_append_of_pos passes
    rw [List.append_nil] at skipped
    simp [Text.cutOnce, skipped]
  simp [padOf, inside, uncut]

/-- A node that is read back: it has filters, each is read as one, and its labels are names. -/
structure Readable (node : Node) : Prop where
  some_filter : node.filters ≠ []
  filters : ∀ filter ∈ node.filters, Whole filter.text.toList
  inputs : ∀ name, Pad.label name ∈ node.inputs → isName name = true
  outputs : ∀ name ∈ node.outputs, isName name = true

def readingOf (node : Node) : Reading :=
  ⟨node.inputs, node.filters.map Filter.text, node.outputs⟩

private theorem padOf_inside {node : Node} (readable : Readable node) {pad : Pad} (member : pad ∈ node.inputs) :
    padOf (inside pad) = pad := by
  cases pad with
  | input index stream => exact padOf_input index stream
  | label name => exact padOf_label (readable.inputs name member)

private theorem inside_closed {node : Node} (readable : Readable node) {pad : Pad} (member : pad ∈ node.inputs) :
    ']' ∉ inside pad := by
  intro closing
  cases pad with
  | input index stream =>
    have digits : ']' ∉ Nat.toDigits 10 index := fun digit =>
      isDigit_ne (digits_isDigit index _ digit) (by decide) rfl
    cases stream <;> simp [inside, digits] at closing
  | label name => exact name_ne (readable.inputs name member) closing (by decide) rfl

private theorem head_bare {text : List Char} (whole : Whole text) (rest : List Char) :
    (text ++ rest).head? ≠ some '[' := by
  cases text with
  | nil => exact absurd rfl whole.some_char
  | cons c tail =>
    intro same
    cases same
    exact absurd whole.closed (by simp [scan, separates])

private theorem filters_head {texts : List String} (some_text : texts ≠ []) (whole : ∀ text ∈ texts, Whole text.toList)
    (rest : List Char) : ((",".intercalate texts).toList ++ rest).head? ≠ some '[' := by
  rw [String.toList_intercalate]
  cases texts with
  | nil => exact absurd rfl some_text
  | cons text others =>
    have first := head_bare (whole text (by simp))
    cases others with
    | nil => simpa [List.intercalate] using first rest
    | cons next others =>
      have split : ",".toList.intercalate ((text :: next :: others).map String.toList) ++ rest =
          text.toList ++ (",".toList ++ ",".toList.intercalate ((next :: others).map String.toList) ++ rest) := by
        simp [List.intercalate]
      rw [split]
      exact first _

private theorem text_eq (node : Node) : node.text.toList = (node.inputs.map inside).flatMap inBrackets ++
    ((",".intercalate (node.filters.map Filter.text)).toList ++
      (node.outputs.map String.toList).flatMap inBrackets) := by
  have pads : (String.join (node.inputs.map Pad.text)).toList = (node.inputs.map inside).flatMap inBrackets := by
    simp [String.toList_join, List.flatMap_map, pad_text]
  have labels : (String.join (node.outputs.map bracketed)).toList =
      (node.outputs.map String.toList).flatMap inBrackets := by
    simp [String.toList_join, List.flatMap_map, bracketed, inBrackets]
  simp only [Node.text, String.toList_append, pads, labels, List.append_assoc]

private theorem readNode_append {node : Node} (readable : Readable node) {rest : List Char}
    (ends : ∀ c ∈ rest.head?, c = ';') :
    readNode (node.text.toList ++ rest) = some (readingOf node, rest) := by
  have some_text : node.filters.map Filter.text ≠ [] := by simpa using readable.some_filter
  have whole : ∀ text ∈ node.filters.map Filter.text, Whole text.toList := by
    simpa using readable.filters
  have pads_closed : ∀ name ∈ node.inputs.map inside, ']' ∉ name := by
    simpa using fun pad member => inside_closed readable member
  have labels_closed : ∀ name ∈ node.outputs.map String.toList, ']' ∉ name := by
    simpa using fun name member closing => name_ne (readable.outputs name member) closing (by decide) rfl
  have groups : readGroups ((node.outputs.map String.toList).flatMap inBrackets ++ rest) = some (_, rest) :=
    readGroups_append labels_closed fun opens => absurd (ends '[' opens) (by decide)
  have starts : ∀ c ∈ ((node.outputs.map String.toList).flatMap inBrackets ++ rest).head?, c = '[' ∨ c = ';' := by
    cases node.outputs with
    | nil => exact fun c member => .inr (ends c member)
    | cons name others => simp [inBrackets]
  have filters := readFilters_append some_text whole
    (fun c member => by rcases starts c member with rfl | rfl <;> rfl)
    (fun comma => absurd (starts ',' comma) (by decide))
  have pads := readGroups_append pads_closed (filters_head some_text whole
    ((node.outputs.map String.toList).flatMap inBrackets ++ rest))
  have inputs : (node.inputs.map inside).map padOf = node.inputs := by
    rw [List.map_map]
    exact (List.map_congr_left fun pad member => padOf_inside readable member).trans (List.map_id _)
  rw [text_eq, List.append_assoc, List.append_assoc]
  simp only [readNode, pads, filters, groups]
  simp [readingOf, inputs]

private theorem readNodes_last {input : List Char} {node : Reading} (first : readNode input = some (node, [])) :
    readNodes input = some [node] := by
  rw [readNodes]
  split
  next absent => cases first.symm.trans absent
  next found =>
    cases first.symm.trans found
    rfl
  next found => cases first.symm.trans found
  next impossible _ found =>
    cases first.symm.trans found
    exact absurd rfl (impossible node)

private theorem readNodes_semicolon {input rest : List Char} {node : Reading}
    (first : readNode input = some (node, ';' :: rest)) :
    readNodes input = (readNodes rest).map (node :: ·) := by
  rw [readNodes]
  split
  next absent => cases first.symm.trans absent
  next found => cases first.symm.trans found
  next found =>
    cases first.symm.trans found
    rfl
  next impossible found =>
    cases first.symm.trans found
    exact absurd rfl (impossible node rest)

theorem parse_text {nodes : List Node} (some_node : nodes ≠ []) (readable : ∀ node ∈ nodes, Readable node)
    (inputCount : Nat) : parse (Graph.text ⟨inputCount, nodes⟩) = some (nodes.map readingOf) := by
  simp only [parse, Graph.text, String.toList_intercalate]
  induction nodes with
  | nil => exact absurd rfl some_node
  | cons node others ih =>
    have first (rest : List Char) (ends : ∀ c ∈ rest.head?, c = ';') :=
      readNode_append (readable node (by simp)) ends
    cases others with
    | nil =>
      have alone := first [] (by simp)
      rw [List.append_nil] at alone
      simpa [List.intercalate] using readNodes_last alone
    | cons next others =>
      have later := ih (by simp) fun other member => readable other (List.mem_cons_of_mem _ member)
      have split : ";".toList.intercalate (((node :: next :: others).map Node.text).map String.toList) =
          node.text.toList ++ ';' :: ";".toList.intercalate (((next :: others).map Node.text).map String.toList) := by
        simp [List.intercalate]
      rw [split, readNodes_semicolon (first _ (by simp)), later]
      rfl

/-- Filters alone are read back as a node without pads and labels. -/
theorem parse_filters {filters : List Filter} (some_filter : filters ≠ [])
    (whole : ∀ filter ∈ filters, Whole filter.text.toList) :
    parse (",".intercalate (filters.map Filter.text)) = some [⟨[], filters.map Filter.text, []⟩] := by
  have alone : parse (Graph.text ⟨0, [⟨[], filters, []⟩]⟩) = some [readingOf ⟨[], filters, []⟩] :=
    parse_text (by simp) (by simpa using ⟨some_filter, whole, by simp, by simp⟩) 0
  simpa [Graph.text, Node.text, readingOf] using alone

end Montage.Proofs.FilterGrammar
