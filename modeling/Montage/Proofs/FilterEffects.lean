import Mathlib.Data.List.Basic
import Montage.Proofs.NumberText
import Montage.Proofs.SubtitlePaths

/-! What filters do, as the engine reads it off their texts. A filter is unquoted as a part of the graph and its options
once more; a name with options of the right form says what is done, and with which amounts. Counts, sizes and times in
whole numbers are read as numbers, and doubles are kept as they are written. -/

namespace Montage.Proofs.FilterEffects
open Montage.Filter FilterGrammar QuotedTokens NumberText

/-- What a filter does to its inputs. -/
inductive Effect where
  /-- Keeps a stretch of a stream. -/
  | cut (stream : Stream) (start stop : List Char)
  /-- Lets the pictures begin at zero and run at a rate. -/
  | retime (rate : List Char)
  /-- Lets the sound begin at zero. -/
  | restart
  | tempo (factor : List Char)
  | gain (factor : List Char)
  /-- Delays the left and the right channel by milliseconds. -/
  | delay (left right : Nat)
  /-- Plays its inputs one after the other, each with so many pictures and sounds. -/
  | join (count pictures sounds : Nat)
  /-- Scales to the largest size within a width and a height that keeps the proportions. -/
  | fit (width height : Nat)
  /-- Centres the picture on a canvas. -/
  | centre (width height : Nat)
  | frames (rate : Nat)
  | scale (width height : Nat)
  | copies (count : Nat)
  | crop (width height x y : Nat)
  | blur (radius power : Nat)
  /-- Lays the second input over the first one. -/
  | lay (x y : Nat)
  | subtitles (path : List Char)
  /-- Plays its inputs at once and at their own volumes, up to the end of the longest. -/
  | mix (count : Nat)
  | pass
  deriving DecidableEq

def natural (digits : List Char) : Option Nat :=
  if digits.isEmpty || !digits.all Char.isDigit then none else some (Nat.ofDigitChars 10 digits 0)

/-- An option with its key, or an expression with its first part. -/
def keyed (key : String) (value : List Char) : List Char :=
  key.toList ++ value

/-- What follows a key that an option has to have. -/
def after (key : String) (option : List Char) : Option (List Char) :=
  key.toList.isPrefixOf? option

namespace Effect

/-- The effect of a filter by its name and its options. -/
def ofOptions (name : String) (options : List (List Char)) : Option Effect :=
  match name, options with
  | "trim", [start, stop] => do return .cut .video (← after "start=" start) (← after "end=" stop)
  | "atrim", [start, stop] => do return .cut .sound (← after "start=" start) (← after "end=" stop)
  | "setpts", [expression] => do return .retime (← after "(PTS-STARTPTS)/" expression)
  | "asetpts", [expression] => if expression = "PTS-STARTPTS".toList then some .restart else none
  | "atempo", [factor] => some (.tempo factor)
  | "volume", [factor] => some (.gain factor)
  | "adelay", [delays] => do
    let (left, right) ← Text.cutOnce (· = '|') delays
    return .delay (← natural left) (← natural right)
  | "concat", [count, pictures, sounds] => do
    return .join (← (after "n=" count).bind natural) (← (after "v=" pictures).bind natural)
      (← (after "a=" sounds).bind natural)
  | "scale", [width, height] => do return .scale (← natural width) (← natural height)
  | "scale", [width, height, ratio] =>
    if ratio = "force_original_aspect_ratio=decrease".toList then
      do return .fit (← natural width) (← natural height)
    else none
  | "pad", [width, height, left, top] =>
    if left = "(ow-iw)/2".toList ∧ top = "(oh-ih)/2".toList then
      do return .centre (← natural width) (← natural height)
    else none
  | "fps", [rate] => do return .frames (← natural rate)
  | "split", [count] => do return .copies (← natural count)
  | "crop", [width, height, x, y] => do
    return .crop (← natural width) (← natural height) (← natural x) (← natural y)
  | "boxblur", [radius, power] => do
    return .blur (← (after "luma_radius=" radius).bind natural) (← (after "luma_power=" power).bind natural)
  | "overlay", [x, y] => do return .lay (← natural x) (← natural y)
  | "ass", [path] => some (.subtitles path)
  | "amix", [count, duration, normalize] =>
    if duration = "duration=longest".toList ∧ normalize = "normalize=0".toList then
      do return .mix (← (after "inputs=" count).bind natural)
    else none
  | "anull", [] => some .pass
  | _, _ => none

end Effect

private theorem readToken_length {ends : Char → Bool} {text word left : List Char}
    (read : readToken noBlank ends text = some (word, left)) : left.length ≤ text.length :=
  Nat.le_trans (readFrom_length read) (List.dropWhile_sublist _).length_le

def readOptions (text : List Char) : Option (List (List Char)) :=
  match _read : readToken noBlank (· = ':') text with
  | none => none
  | some (option, []) => some [option]
  | some (option, _ :: rest) => (readOptions rest).map (option :: ·)
termination_by text.length
decreasing_by
  have := readToken_length _read
  simp only [List.length_cons] at this
  omega

/-- The effect of a filter by its text: its name goes up to the first equals sign, and its options follow. -/
def Effect.read (text : String) : Option Effect :=
  match readToken noBlank separates text.toList with
  | some (filter, []) =>
    match Text.cutOnce (· = '=') filter with
    | none => ofOptions (String.ofList filter) []
    | some (name, rest) => (readOptions rest).bind (ofOptions (String.ofList name))
  | _ => none

/-- What the engine is meant to do by a filter. -/
def effectOf : Filter → Effect
  | .trim start stop => .cut .video (Number.plain start) (Number.plain stop)
  | .retime rate => .retime (Number.plain rate)
  | .trimSound start stop => .cut .sound (Number.plain start) (Number.plain stop)
  | .restartSound => .restart
  | .tempo factor => .tempo (Number.plain factor)
  | .volume gain => .gain (Number.fixed 6 gain)
  | .delay milliseconds => .delay milliseconds milliseconds
  | .joinVideo count => .join count 1 0
  | .joinSound count => .join count 0 1
  | .fit width height => .fit width height
  | .centre width height => .centre width height
  | .frameRate rate => .frames rate
  | .scale width height => .scale width height
  | .split => .copies 2
  | .crop box => .crop box.width box.height box.x box.y
  | .blur => .blur 20 3
  | .overlay x y => .lay x y
  | .subtitles path => .subtitles (SubtitlePaths.slashed path)
  | .mix count => .mix count
  | .passSound => .pass
  | .verbatim _ => .pass

/-- A filter that is written from its options. -/
def isComposed : Filter → Bool
  | .verbatim _ => false
  | _ => true

/-- A character that neither ends a filter nor begins a quotation. -/
def ordinary (c : Char) : Bool :=
  !separates c && c != '\\' && c != '\''

def Ordinary (text : List Char) : Prop :=
  text.all ordinary = true

instance (text : List Char) : Decidable (Ordinary text) :=
  inferInstanceAs (Decidable (text.all ordinary = true))

@[simp] theorem ordinary_append (first second : List Char) :
    Ordinary (first ++ second) ↔ Ordinary first ∧ Ordinary second := by
  simp [Ordinary]

theorem ordinary_mem {text : List Char} : Ordinary text ↔ ∀ c ∈ text, ordinary c = true :=
  List.all_eq_true

theorem ordinary_signs {c : Char} (plain : ordinary c = true) : separates c = false ∧ c ≠ '\\' ∧ c ≠ '\'' := by
  simpa [ordinary, and_assoc] using plain

theorem ordinary_numeric {text : List Char} (numeric : Numeric text) : Ordinary text := by
  rw [ordinary_mem]
  intro c member
  have here := numeric c member
  simp only [ordinary, separates, Bool.and_eq_true, Bool.not_eq_true', bne_iff_ne, ne_eq, Bool.or_eq_false_iff,
    decide_eq_false_iff_not]
  refine ⟨⟨⟨⟨⟨?_, ?_⟩, ?_⟩, ?_⟩, ?_⟩, ?_⟩ <;> exact numeric_ne here rfl

/-- An option that stands between colons as it is. -/
def Plain (option : List Char) : Prop :=
  Ordinary option ∧ ':' ∉ option

instance (option : List Char) : Decidable (Plain option) :=
  inferInstanceAs (Decidable (_ ∧ _))

@[simp] theorem plain_append (first second : List Char) : Plain (first ++ second) ↔ Plain first ∧ Plain second := by
  simp only [Plain, ordinary_append, List.mem_append, not_or]
  exact and_and_and_comm

@[simp] theorem plain_number (x : Float) : Plain (Number.plain x) :=
  ⟨ordinary_numeric (numeric_plain x), fun colon => numeric_ne (numeric_plain x _ colon) rfl rfl⟩

@[simp] theorem plain_fixed (places : Nat) (x : Float) : Plain (Number.fixed places x) :=
  ⟨ordinary_numeric (numeric_fixed places x), fun colon => numeric_ne (numeric_fixed places x _ colon) rfl rfl⟩

@[simp] theorem plain_digits (number : Nat) : Plain (Nat.toDigits 10 number) :=
  ⟨ordinary_numeric (numeric_digitsOf number), fun colon => numeric_ne (numeric_digitsOf number _ colon) rfl rfl⟩

@[simp] theorem natural_digits (number : Nat) : natural (Nat.toDigits 10 number) = some number := by
  have digits : (Nat.toDigits 10 number).all Char.isDigit = true := List.all_eq_true.mpr (digits_isDigit number)
  simp [natural, digits, Nat.toDigits_ne_nil]

@[simp] theorem after_keyed (key : String) (value : List Char) : after key (keyed key value) = some value :=
  List.isPrefixOf?_eq_some_iff_append_eq.mpr rfl

@[simp] theorem plain_keyed (key : String) (value : List Char) :
    Plain (keyed key value) ↔ Plain key.toList ∧ Plain value :=
  plain_append ..

private theorem stretch_ordinary {text : List Char} (ordinary : Ordinary text) :
    stretch .bare text = ⟨text, text, .bare⟩ := by
  induction text with
  | nil => rfl
  | cons c rest ih =>
    obtain ⟨first, later⟩ := (ordinary_append [c] rest).mp ordinary
    obtain ⟨-, slash, quote⟩ := ordinary_signs (ordinary_mem.mp first c List.mem_cons_self)
    simp [stretch, said, Mode.next, slash, quote, ih later]

private theorem readToken_ordinary {text : List Char} (ordinary : Ordinary text) :
    readToken noBlank separates text = some (text, []) :=
  readToken_stretch rfl rfl (by decide) (stretch_ordinary ordinary)
    (fun c member => (ordinary_signs (ordinary_mem.mp ordinary c member)).1) (fun _ _ => rfl) fun _ _ => rfl

private theorem readToken_plain {option : List Char} (plain : Plain option) {rest : List Char}
    (behind : isOver noBlank (· = ':') rest = true) :
    readToken noBlank (· = ':') (option ++ rest) = some (option, rest) := by
  have begins : (option ++ rest).dropWhile noBlank = option ++ rest := by
    cases option ++ rest <;> rfl
  have inner : ∀ c ∈ option, decide (c = ':') = false := fun c member =>
    decide_eq_false fun colon => plain.2 (colon ▸ member)
  rw [readToken, begins]
  exact readFrom_stretch (by decide) (by decide) (stretch_ordinary plain.1) inner behind

private theorem readOptions_last {text option : List Char}
    (read : readToken noBlank (· = ':') text = some (option, [])) :
    readOptions text = some [option] := by
  rw [readOptions]
  split <;> simp_all

private theorem readOptions_next {text option rest : List Char} {c : Char}
    (read : readToken noBlank (· = ':') text = some (option, c :: rest)) :
    readOptions text = (readOptions rest).map (option :: ·) := by
  rw [readOptions]
  split <;> simp_all

private theorem readOptions_plain {options : List (List Char)} (some_option : options ≠ [])
    (plain : ∀ option ∈ options, Plain option) : readOptions ([':'].intercalate options) = some options := by
  induction options with
  | nil => exact absurd rfl some_option
  | cons option others ih =>
    have here := plain option List.mem_cons_self
    cases others with
    | nil =>
      have alone : readToken noBlank (· = ':') (option ++ []) = some (option, []) := readToken_plain here rfl
      rw [List.append_nil] at alone
      simpa [List.intercalate] using readOptions_last alone
    | cons next others =>
      have later := ih (by simp) fun other member => plain other (List.mem_cons_of_mem _ member)
      have split : [':'].intercalate (option :: next :: others) =
          option ++ ':' :: [':'].intercalate (next :: others) := by simp [List.intercalate]
      rw [split, readOptions_next (readToken_plain here rfl), later]
      rfl

private theorem ordinary_options {options : List (List Char)} (plain : ∀ option ∈ options, Plain option) :
    Ordinary ([':'].intercalate options) := by
  induction options with
  | nil => rfl
  | cons option others ih =>
    have here := (plain option List.mem_cons_self).1
    cases others with
    | nil => simpa [List.intercalate] using here
    | cons next others =>
      have later := ih fun other member => plain other (List.mem_cons_of_mem _ member)
      have split : [':'].intercalate (option :: next :: others) =
          option ++ ([':'] ++ [':'].intercalate (next :: others)) := by simp [List.intercalate]
      rw [split, ordinary_append, ordinary_append]
      exact ⟨here, by decide, later⟩

/-- A text that consists of a name and plain options. -/
structure Written (text name : String) (options : List (List Char)) : Prop where
  text : text.toList = name.toList ++ '=' :: [':'].intercalate options
  named : Ordinary name.toList ∧ '=' ∉ name.toList
  some_option : options ≠ []
  plain : ∀ option ∈ options, Plain option

theorem Written.read {text name : String} {options : List (List Char)} (written : Written text name options) :
    Effect.read text = Effect.ofOptions name options := by
  obtain ⟨same, ⟨ordinary, named⟩, some_option, plain⟩ := written
  have whole : Ordinary text.toList := by
    rw [same]
    exact (ordinary_append _ _).mpr ⟨ordinary, (ordinary_append ['='] _).mpr ⟨rfl, ordinary_options plain⟩⟩
  have cut : Text.cutOnce (· = '=') text.toList = some (name.toList, [':'].intercalate options) := by
    rw [same]
    exact Text.cutOnce_append (fun c member => decide_eq_false fun equals => named (equals ▸ member)) rfl
  simp only [Effect.read, readToken_ordinary whole, cut, readOptions_plain some_option plain, Option.bind_some,
    String.ofList_toList]

def partsOf : Filter → String × List (List Char)
  | .trim start stop => ("trim", [keyed "start=" (Number.plain start), keyed "end=" (Number.plain stop)])
  | .retime rate => ("setpts", [keyed "(PTS-STARTPTS)/" (Number.plain rate)])
  | .trimSound start stop => ("atrim", [keyed "start=" (Number.plain start), keyed "end=" (Number.plain stop)])
  | .restartSound => ("asetpts", ["PTS-STARTPTS".toList])
  | .tempo factor => ("atempo", [Number.plain factor])
  | .volume gain => ("volume", [Number.fixed 6 gain])
  | .delay milliseconds => ("adelay", [Nat.toDigits 10 milliseconds ++ ['|'] ++ Nat.toDigits 10 milliseconds])
  | .joinVideo count => ("concat", [keyed "n=" (Nat.toDigits 10 count), keyed "v=" ['1'], keyed "a=" ['0']])
  | .joinSound count => ("concat", [keyed "n=" (Nat.toDigits 10 count), keyed "v=" ['0'], keyed "a=" ['1']])
  | .fit width height =>
    ("scale", [Nat.toDigits 10 width, Nat.toDigits 10 height, "force_original_aspect_ratio=decrease".toList])
  | .centre width height =>
    ("pad", [Nat.toDigits 10 width, Nat.toDigits 10 height, "(ow-iw)/2".toList, "(oh-ih)/2".toList])
  | .frameRate rate => ("fps", [Nat.toDigits 10 rate])
  | .scale width height => ("scale", [Nat.toDigits 10 width, Nat.toDigits 10 height])
  | .split => ("split", [['2']])
  | .crop box =>
    ("crop", [Nat.toDigits 10 box.width, Nat.toDigits 10 box.height, Nat.toDigits 10 box.x, Nat.toDigits 10 box.y])
  | .blur => ("boxblur", [keyed "luma_radius=" ['2', '0'], keyed "luma_power=" ['3']])
  | .overlay x y => ("overlay", [Nat.toDigits 10 x, Nat.toDigits 10 y])
  | .mix count =>
    ("amix", [keyed "inputs=" (Nat.toDigits 10 count), "duration=longest".toList, "normalize=0".toList])
  | .subtitles _ | .passSound | .verbatim _ => ("", [])

private theorem written_parts {filter : Filter} (some_option : (partsOf filter).2 ≠ []) :
    Written filter.text (partsOf filter).1 (partsOf filter).2 := by
  constructor
  · cases filter
    case subtitles | passSound | verbatim => exact absurd rfl some_option
    all_goals
      unfold Filter.text partsOf
      simp [Filter.numberText, gainText, keyed, List.intercalate]
  · cases filter <;> simp only [partsOf] <;> decide
  · exact some_option
  · cases filter
    case subtitles | passSound | verbatim => exact absurd rfl some_option
    all_goals
      simp only [partsOf, List.forall_mem_cons, plain_keyed, plain_number, plain_fixed, plain_digits, plain_append,
        true_and, and_true]
      decide

private theorem read_subtitles (path : String) :
    Effect.read (Filter.subtitles path).text = some (effectOf (.subtitles path)) := by
  have none : ∀ c ∈ SubtitlePaths.named, separates c = false := by simp [SubtitlePaths.named, separates]
  have filter : readToken noBlank separates (Filter.subtitles path).text.toList =
      some (SubtitlePaths.named ++ SubtitlePaths.option path, []) :=
    readToken_stretch rfl rfl (by decide) (SubtitlePaths.filter_stretch path) none (fun _ _ => rfl) fun _ _ => rfl
  have option : readToken noBlank (· = ':') (SubtitlePaths.option path) = some (SubtitlePaths.slashed path, []) :=
    readToken_stretch rfl rfl (by decide) (SubtitlePaths.option_stretch path) SubtitlePaths.leaves_inner
      (fun _ _ => rfl) fun _ _ => rfl
  have cut : Text.cutOnce (· = '=') (SubtitlePaths.named ++ SubtitlePaths.option path) =
      some ("ass".toList, SubtitlePaths.option path) :=
    Text.cutOnce_append (by simp : ∀ c ∈ "ass".toList, decide (c = '=') = false) rfl
  simp only [Effect.read, filter, cut, readOptions_last option, Option.bind_some, String.ofList_toList]
  rfl

private theorem cut_delays (left right : Nat) :
    Text.cutOnce (· = '|') (Nat.toDigits 10 left ++ ['|'] ++ Nat.toDigits 10 right) =
    some (Nat.toDigits 10 left, Nat.toDigits 10 right) := by
  rw [List.append_assoc]
  exact Text.cutOnce_append (fun c member => decide_eq_false (isDigit_ne (digits_isDigit left c member) (by decide))) rfl

/-- Every filter that is written from its options is read as what it is meant to do. -/
theorem read_text {filter : Filter} (composed : isComposed filter = true) :
    Effect.read filter.text = some (effectOf filter) := by
  have zero : natural ['0'] = some 0 := by decide
  have one : natural ['1'] = some 1 := by decide
  have two : natural ['2'] = some 2 := by decide
  have three : natural ['3'] = some 3 := by decide
  have twenty : natural ['2', '0'] = some 20 := by decide
  cases filter
  case verbatim => cases composed
  case subtitles path => exact read_subtitles path
  case passSound => decide
  all_goals
    rw [(written_parts (by simp [partsOf])).read]
    simp only [partsOf, Effect.ofOptions, effectOf, after_keyed, natural_digits, cut_delays, zero, one, two, three,
      twenty, Option.pure_def, Option.bind_eq_bind, Option.bind_some, and_self, if_true]

end Montage.Proofs.FilterEffects
