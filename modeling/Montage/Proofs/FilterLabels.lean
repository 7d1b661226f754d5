import Montage.Proofs.FilterWiring

/-! The labels of a compiled graph are distinct. Fixed labels differ from those of segments and clips
in their first letter, and the latter from each other in their number or their last letter. -/

namespace Montage.Proofs.FilterLabels
open Montage.Filter FilterWiring

theorem segmentLabel_toList (index : Nat) (stream : Stream) : (segmentLabel index stream).toList =
    's' :: 'e' :: 'g' :: (Nat.toDigits 10 index ++ [match stream with | .video => 'v' | .sound => 'a']) := by
  cases stream <;> simp [segmentLabel]

theorem clipLabel_toList (index : Nat) :
    (clipLabel index).toList = 'c' :: 'l' :: 'i' :: 'p' :: Nat.toDigits 10 index := by
  simp [clipLabel]

theorem toDigits_injective {first second : Nat} (same : Nat.toDigits 10 first = Nat.toDigits 10 second) :
    first = second := by
  simpa using congrArg (Nat.ofDigitChars 10 · 0) same

private theorem segmentLabel_injective {first second : Nat} {stream other : Stream}
    (same : segmentLabel first stream = segmentLabel second other) : first = second ∧ stream = other := by
  have chars := congrArg String.toList same
  simp only [segmentLabel_toList, List.cons.injEq, true_and] at chars
  obtain ⟨digits, last⟩ := List.append_inj' chars rfl
  refine ⟨toDigits_injective digits, ?_⟩
  cases stream <;> cases other <;> first | rfl | (simp at last)

private theorem clipLabel_injective {first second : Nat} (same : clipLabel first = clipLabel second) :
    first = second := by
  have chars := congrArg String.toList same
  simp only [clipLabel_toList, List.cons.injEq, true_and] at chars
  exact toDigits_injective chars

def segmentLabels (count : Nat) (stream : Stream) : List String :=
  (List.range count).map (segmentLabel · stream)

def clipLabels (count : Nat) : List String :=
  (List.range count).map clipLabel

/-- All labels that a picture may have, in order. -/
def pictureLabels (segments : Nat) : List String :=
  segmentLabels segments .video ++ ["vcat", "vnorm"] ++ ["vbase", "vblursrc", "vblurred", "vblur"] ++
    ["ovlimg", "vovl"] ++ ["vsub"] ++ [videoOutput]

/-- All labels that a sound may have, in order. -/
def soundLabels (segments clips : Nat) : List String :=
  segmentLabels segments .sound ++ ["acat"] ++ clipLabels clips ++ ["amixed"] ++ [soundOutput]

/-- What numbers tell apart is distinct when it is numbered. -/
theorem nodup_numbered {item : Nat → α} (count : Nat)
    (injective : ∀ first second, item first = item second → first = second) :
    ((List.range count).map item).Nodup := by
  rw [List.Nodup, List.pairwise_map]
  apply List.Pairwise.imp _ List.nodup_range
  intro first second different same
  exact different (injective first second same)

private theorem segmentLabels_nodup (count : Nat) (stream : Stream) : (segmentLabels count stream).Nodup :=
  nodup_numbered count fun _ _ same => (segmentLabel_injective same).1

private theorem clipLabels_nodup (count : Nat) : (clipLabels count).Nodup :=
  nodup_numbered count fun _ _ => clipLabel_injective

def initial (label : String) : Option Char :=
  label.toList.head?

private theorem initial_segmentLabels {count : Nat} {stream : Stream} {label : String}
    (member : label ∈ segmentLabels count stream) : initial label = some 's' := by
  obtain ⟨index, -, rfl⟩ := List.mem_map.mp member
  simp [initial, segmentLabel_toList]

private theorem initial_clipLabels {count : Nat} {label : String} (member : label ∈ clipLabels count) :
    initial label = some 'c' := by
  obtain ⟨index, -, rfl⟩ := List.mem_map.mp member
  simp [initial, clipLabel_toList]

private theorem segmentLabels_apart (first second : Nat) :
    ∀ label ∈ segmentLabels first .video, label ∉ segmentLabels second .sound := by
  intro label picture sound
  obtain ⟨index, -, rfl⟩ := List.mem_map.mp picture
  obtain ⟨other, -, same⟩ := List.mem_map.mp sound
  cases (segmentLabel_injective same).2

def fixedLabels : List String :=
  ["vcat", "vnorm", "vbase", "vblursrc", "vblurred", "vblur", "ovlimg", "vovl", "vsub", videoOutput,
    "acat", "amixed", soundOutput]

private theorem fixedLabels_initial : ∀ label ∈ fixedLabels, initial label ≠ some 's' ∧ initial label ≠ some 'c' := by
  decide

theorem labels_perm (segments clips : Nat) : (pictureLabels segments ++ soundLabels segments clips).Perm
    ((segmentLabels segments .video ++ segmentLabels segments .sound) ++
      (clipLabels clips ++ fixedLabels)) := by
  rw [List.perm_iff_count]
  intro label
  simp only [pictureLabels, soundLabels, fixedLabels, List.count_append, List.count_cons, List.count_nil]
  omega

theorem labels_nodup (segments clips : Nat) :
    (pictureLabels segments ++ soundLabels segments clips).Nodup := by
  have segmentInitial : ∀ label ∈ segmentLabels segments .video ++ segmentLabels segments .sound,
      initial label = some 's' := by
    intro label member
    rcases List.mem_append.mp member with member | member <;> exact initial_segmentLabels member
  rw [(labels_perm segments clips).nodup_iff, List.nodup_append, List.nodup_append, List.nodup_append]
  refine ⟨⟨segmentLabels_nodup .., segmentLabels_nodup .., ?_⟩,
    ⟨clipLabels_nodup .., by decide, ?_⟩, ?_⟩
  · rintro label picture _ sound rfl
    exact segmentLabels_apart _ _ label picture sound
  · rintro label clip _ fixed rfl
    exact (fixedLabels_initial label fixed).2 (initial_clipLabels clip)
  · rintro label segment _ other rfl
    rcases List.mem_append.mp other with clip | fixed
    · simpa using (segmentInitial label segment).symm.trans (initial_clipLabels clip)
    · exact (fixedLabels_initial label fixed).1 (segmentInitial label segment)

/-- What a node does, whatever the labels are that it writes. -/
def body (node : Node) : List Pad × List Filter :=
  (node.inputs, node.filters)

/-- Renaming an output leaves everything but the labels written as it is. -/
theorem relabelLast_bodies (old new : String) (nodes : List Node) :
    ((relabelLast old new nodes).getD nodes).map body = nodes.map body := by
  have kept : ∀ renamed, relabelLast old new nodes = some renamed → renamed.map body = nodes.map body := by
    induction nodes with
    | nil => intro _ impossible; cases impossible
    | cons node rest ih =>
      intro renamed found
      unfold relabelLast at found
      split at found
      next later same =>
        cases found
        simp [ih later same]
      next =>
        split at found
        · cases found
          rfl
        · cases found
  cases found : relabelLast old new nodes with
  | none => rfl
  | some renamed => exact kept renamed found

/-- Renaming the only output of the last node reaches that node. -/
theorem relabelLast_ends (front : List Node) (inputs : List Pad) (filters : List Filter)
    (old new : String) :
    relabelLast old new (front ++ [⟨inputs, filters, [old]⟩]) =
      some (front ++ [⟨inputs, filters, [new]⟩]) := by
  induction front with
  | nil => simp [relabelLast, Node.relabel]
  | cons node rest ih => simp [relabelLast, ih]

end Montage.Proofs.FilterLabels
