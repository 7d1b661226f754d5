import Montage.Proofs.FilterLabels
import Montage.Proofs.PathJoin
import Montage.Render.Naming

/-! Names of staged files. Whatever the uploads were called, every name is a plain one, and no two are
equal: they differ before their first dot, where nothing comes from an upload. -/

namespace Montage.Proofs.StagedNames
open Montage.Render PathJoin

/-- A sign other than a letter or a digit is not the small letter of one. -/
private theorem toLower_ne {c sign : Char} (letter : c.isAlphanum = true) (bar : sign = '/' ∨ sign = '_') :
    c.toLower ≠ sign := by
  intro same
  unfold Char.toLower at same
  split at same
  next upper =>
    have lowered : (c.val + ('a'.val - 'A'.val)).toNat = sign.val.toNat :=
      congrArg (fun c : Char => c.val.toNat) same
    have first : 'A'.val.toNat ≤ c.val.toNat := upper.1
    have last : c.val.toNat ≤ 'Z'.val.toNat := upper.2
    have shift : ('a'.val - 'A'.val).toNat = 32 := by decide
    have letter : 'A'.val.toNat = 65 := by decide
    have letter' : 'Z'.val.toNat = 90 := by decide
    have number : sign.val.toNat = 47 ∨ sign.val.toNat = 95 := by rcases bar with rfl | rfl <;> decide
    rw [UInt32.toNat_add, shift] at lowered
    omega
  next =>
    subst same
    rcases bar with rfl | rfl <;> exact absurd letter (by decide)

/-- What may follow the part of a name that no upload has a say in. -/
def Tail (rest : List Char) : Prop :=
  rest = [] ∨ ∃ letters, rest = '.' :: letters ∧ ∀ sign, sign = '/' ∨ sign = '_' → sign ∉ letters

/-- An extension has a dot in front, and its characters are letters and digits. -/
private theorem extensionSuffix_tail (uploaded : String) : Tail (extensionSuffix uploaded).toList := by
  unfold extensionSuffix
  split
  · exact .inl rfl
  next extension _ =>
    simp only
    split
    · exact .inl rfl
    next usable =>
      simp only [Bool.or_eq_true, Bool.not_eq_true', not_or, Bool.not_eq_false, List.all_eq_true] at usable
      refine .inr ⟨extension.toList.map Char.toLower, by simp, ?_⟩
      intro sign bar inside
      obtain ⟨c, member, same⟩ := List.mem_map.mp inside
      exact toLower_ne (usable.2 c member) bar same

def stem (name : String) : List Char :=
  name.toList.takeWhile (· ≠ '.')

structure Named (base : List Char) (name : String) : Prop where
  plain : Plain name
  stem : stem name = base
  bars : name.toList.count '_' = base.count '_'

theorem named_of_tail {base rest : List Char} {name : String} (some_char : base ≠ []) (no_dot : '.' ∉ base)
    (no_slash : '/' ∉ base) (tail : Tail rest) (same : name.toList = base ++ rest) : Named base name := by
  have whole : ∀ c ∈ base, decide (c ≠ '.') = true := fun c member =>
    decide_eq_true fun dot => no_dot (dot ▸ member)
  have stops : rest.takeWhile (· ≠ '.') = [] := by
    rcases tail with rfl | ⟨letters, rfl, -⟩
    · rfl
    · simp
  have stem_eq : stem name = base := by
    rw [stem, same, List.takeWhile_append_of_pos whole, stops, List.append_nil]
  have apart : ∀ other : String, stem other = [] → name ≠ other := by
    rintro other empty rfl
    exact some_char (stem_eq.symm.trans empty)
  have absent : ∀ sign, sign = '/' ∨ sign = '_' → sign ∉ rest := by
    intro sign bar member
    rcases tail with rfl | ⟨letters, rfl, absent⟩
    · cases member
    · rcases List.mem_cons.mp member with impossible | after
      · rcases bar with rfl | rfl <;> exact absurd impossible (by decide)
      · exact absent sign bar after
  refine ⟨⟨apart "" (by decide), apart "." (by decide), apart ".." (by decide), ?_⟩, stem_eq, ?_⟩
  · rw [same]
    exact List.not_mem_append no_slash (absent '/' (.inl rfl))
  · rw [same, List.count_append, List.count_eq_zero.mpr (absent '_' (.inr rfl)), Nat.add_zero]

theorem named_source (uploaded : String) : Named "source".toList (sourceName uploaded) :=
  named_of_tail (by decide) (by decide) (by decide) (extensionSuffix_tail uploaded) (by simp [sourceName])

def clipStem (index : Nat) : List Char :=
  ['a', 'u', 'd', 'i', 'o', '_'] ++ Nat.toDigits 10 index

theorem named_clip (index : Nat) (uploaded : String) : Named (clipStem index) (clipName index uploaded) := by
  have absent : ∀ c : Char, c ∉ ['a', 'u', 'd', 'i', 'o', '_'] → c.isDigit = false → c ∉ clipStem index := by
    intro c letters sign member
    rcases List.mem_append.mp member with front | digits
    · exact letters front
    · have digit := Nat.isDigit_of_mem_toDigits (by decide) (by decide) digits
      rw [sign] at digit
      cases digit
  refine named_of_tail ?_ (absent '.' (by decide) (by decide)) (absent '/' (by decide) (by decide))
    (extensionSuffix_tail uploaded) (by simp [clipName, clipStem])
  simp [clipStem]

theorem named_overlay : Named "overlay".toList overlayName :=
  named_of_tail (by decide) (by decide) (by decide) (.inr ⟨"png".toList, rfl, by rintro _ (rfl | rfl) <;> decide⟩) (by decide)

theorem named_subtitles : Named "subtitles".toList subtitlesName :=
  named_of_tail (by decide) (by decide) (by decide) (.inr ⟨"ass".toList, rfl, by rintro _ (rfl | rfl) <;> decide⟩) (by decide)

/-- What a file is staged under has one bar at most, before the number of a clip. -/
structure Stages (name : String) : Prop where
  plain : Plain name
  bars : name.toList.count '_' ≤ 1

theorem Named.stages {base : List Char} {name : String} (named : Named base name) (few : base.count '_' ≤ 1) :
    Stages name :=
  ⟨named.plain, named.bars ▸ few⟩

theorem stages_source (uploaded : String) : Stages (sourceName uploaded) :=
  (named_source uploaded).stages (by decide)

theorem stages_clip (index : Nat) (uploaded : String) : Stages (clipName index uploaded) := by
  have digits : '_' ∉ Nat.toDigits 10 index := fun bar =>
    absurd (Nat.isDigit_of_mem_toDigits (by decide) (by decide) bar) (by decide)
  apply (named_clip index uploaded).stages
  rw [clipStem, List.count_append, List.count_eq_zero.mpr digits]
  decide

theorem stages_overlay : Stages overlayName :=
  named_overlay.stages (by decide)

theorem stages_subtitles : Stages subtitlesName :=
  named_subtitles.stages (by decide)

private theorem clipStem_injective {first second : Nat} (same : clipStem first = clipStem second) : first = second :=
  FilterLabels.toDigits_injective (List.append_cancel_left same)

private theorem clipStem_initial (index : Nat) : (clipStem index).head? = some 'a' := by
  simp [clipStem]

/-- The names of all files that may be staged, in order. -/
def names (source : String) (clips : List String) : List String :=
  sourceName source :: clips.mapIdx clipName ++ [overlayName, subtitlesName]

private theorem stem_names (source : String) (clips : List String) : (names source clips).map stem =
    "source".toList :: (List.range clips.length).map clipStem ++ ["overlay".toList, "subtitles".toList] := by
  have each : (clips.mapIdx clipName).map stem = (List.range clips.length).map clipStem := by
    apply List.ext_getElem
    · simp
    · intro index inside _
      simp [(named_clip index _).stem]
  simp only [names, List.map_append, List.map_cons, List.map_nil, each, (named_source source).stem,
    named_overlay.stem, named_subtitles.stem]

theorem names_nodup (source : String) (clips : List String) : (names source clips).Nodup := by
  have clips_apart := FilterLabels.nodup_numbered clips.length fun _ _ => clipStem_injective
  have others : ∀ index, clipStem index ≠ "source".toList ∧ clipStem index ≠ "overlay".toList ∧
      clipStem index ≠ "subtitles".toList := by
    intro index
    refine ⟨?_, ?_, ?_⟩ <;>
      exact fun same => absurd ((clipStem_initial index).symm.trans (congrArg List.head? same)) (by decide)
  have stems_apart : ((names source clips).map stem).Nodup := by
    rw [stem_names, List.cons_append, List.nodup_cons, List.nodup_append]
    refine ⟨?_, clips_apart, by decide, ?_⟩
    · intro member
      rcases List.mem_append.mp member with clip | fixed
      · obtain ⟨index, -, same⟩ := List.mem_map.mp clip
        exact (others index).1 same
      · exact absurd fixed (by decide)
    · rintro _ clip _ fixed rfl
      obtain ⟨index, -, rfl⟩ := List.mem_map.mp clip
      rcases List.mem_cons.mp fixed with overlay | fixed
      · exact (others index).2.1 overlay
      · exact (others index).2.2 (List.mem_singleton.mp fixed)
  exact List.Pairwise.of_map stem (fun _ _ apart same => apart (congrArg stem same)) stems_apart

theorem names_plain (source : String) (clips : List String) : ∀ name ∈ names source clips, Plain name := by
  intro name member
  rcases List.mem_append.mp member with staged | fixed
  · rcases List.mem_cons.mp staged with rfl | clip
    · exact (named_source source).plain
    · obtain ⟨index, inside, rfl⟩ := List.mem_mapIdx.mp clip
      exact (named_clip index _).plain
  · simp only [List.mem_cons, List.not_mem_nil, or_false] at fixed
    rcases fixed with rfl | rfl
    · exact named_overlay.plain
    · exact named_subtitles.plain

end Montage.Proofs.StagedNames
