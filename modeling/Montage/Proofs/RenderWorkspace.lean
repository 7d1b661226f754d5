import Mathlib.Data.List.Perm.Subperm
import Montage.Proofs.JobFrame
import Montage.Proofs.RenderLayout

/-! The directory that a render stages in is its own. Nothing was there before, since a disk has too few
entries to take all the names that are tried, and once it is removed nothing is there again. -/

namespace Montage.Proofs.RenderWorkspace
open Montage.Render JobLogic DiskFrame DiskPlaces DiskTree PathJoin JobFrame RenderLayout

private theorem workspaceName_injective {first second : Nat}
    (same : "render-" ++ toString first = "render-" ++ toString second) : first = second := by
  have chars := congrArg String.toList same
  simp only [String.toList_append, List.append_cancel_left_eq] at chars
  exact FilterLabels.toDigits_injective (by simpa using chars)

private theorem at?_of_exists {disk : Disk} {path : String} (there : disk.exists? path = true) :
    ∃ entry, disk.at? (placeOf path) = some entry := by
  unfold Disk.exists? Disk.find at there
  cases found : disk.locate path with
  | error fault => simp [found] at there
  | ok place =>
    obtain rfl := locate_placeOf found
    cases held : disk.at? (placeOf path) with
    | none => simp [found, held] at there
    | some entry => exact ⟨entry, rfl⟩

private theorem freeWorkspace_taken (disk : Disk) (parent : String) (left number : Nat) :
    disk.exists? (Machine.freeWorkspace disk parent left number) = false ∨
      ∀ offset ≤ left, disk.exists? (Path.join parent ("render-" ++ toString (number + offset))) = true := by
  induction left generalizing number with
  | zero =>
    simp only [Machine.freeWorkspace]
    cases taken : disk.exists? (Path.join parent ("render-" ++ toString number)) with
    | false => exact .inl rfl
    | true =>
      right
      intro offset bound
      obtain rfl : offset = 0 := by omega
      exact taken
  | succ left ih =>
    simp only [Machine.freeWorkspace]
    split
    next taken =>
      rcases ih (number + 1) with free | others
      · exact .inl free
      · right
        intro offset bound
        cases offset with
        | zero => exact taken
        | succ offset =>
          have later := others offset (by omega)
          rwa [Nat.add_assoc, Nat.add_comm 1 offset] at later
    next free => exact .inl (Bool.eq_false_iff.mpr free)

/-- Not all names can be taken: each of them would be an entry of its own. -/
private theorem freeWorkspace_free (disk : Disk) (parent : String) :
    disk.exists? (Machine.freeWorkspace disk parent disk.entries.length 0) = false := by
  rcases freeWorkspace_taken disk parent disk.entries.length 0 with free | taken
  · exact free
  · let place (number : Nat) := placeOf parent ++ ["render-" ++ toString number]
    have distinct : ((List.range (disk.entries.length + 1)).map place).Nodup := by
      apply FilterLabels.nodup_numbered
      intro first second same
      exact workspaceName_injective (List.head_eq_of_cons_eq (List.append_cancel_left same))
    have keys : (List.range (disk.entries.length + 1)).map place ⊆ disk.entries.map Prod.fst := by
      intro key member
      obtain ⟨number, inside, rfl⟩ := List.mem_map.mp member
      have there := taken number (Nat.lt_succ_iff.mp (List.mem_range.mp inside))
      rw [Nat.zero_add] at there
      obtain ⟨entry, held⟩ := at?_of_exists there
      rw [placeOf_join parent (workspace_plain number)] at held
      exact key_of_at? held (List.append_ne_nil_of_right_ne_nil _ (List.cons_ne_nil _ _))
    have bound := (List.subperm_of_subset distinct keys).length_le
    simp only [List.length_map, List.length_range] at bound
    omega

/-- A directory was made where nothing was, and besides at most those that lead to it. -/
structure Opened (parent workspace : String) (before after : Disk) : Prop where
  named : IsWorkspace parent workspace
  fresh : before.at? (placeOf workspace) = none
  located : after.locate workspace = .ok (placeOf workspace)
  directory : after.at? (placeOf workspace) = some .directory
  frame : Frame (fun place => Through parent place ∨ place = placeOf workspace) (fun _ => False) before after

namespace Opened
variable {parent workspace : String} {before after : Disk}

theorem opens (opened : Opened parent workspace before after) : Open workspace := by
  obtain ⟨number, rfl⟩ := opened.named
  exact open_join _ (workspace_plain number)

theorem place (opened : Opened parent workspace before after) :
    ∃ number : Nat, placeOf workspace = placeOf parent ++ ["render-" ++ toString number] := by
  obtain ⟨number, rfl⟩ := opened.named
  exact ⟨number, placeOf_join parent (workspace_plain number)⟩

theorem inside (opened : Opened parent workspace before after) : placeOf workspace ≠ [] := by
  obtain ⟨number, place⟩ := opened.place
  simp [place]

/-- When the directory is removed, whatever was made or written in it is gone, and the rest is left. -/
theorem cleared {made files : List String → Prop} {last : Disk} (opened : Opened parent workspace before after)
    (rooted : Rooted before) (frame : Frame made (fun place => placeOf workspace <+: place ∨ files place) after last) :
    Frame (fun place => Through parent place ∨ made place) files before (last.removeTree workspace) := by
  have there : last.locate workspace = .ok (placeOf workspace) := locate_firm frame.firm opened.located
  have nothing : ∀ place, placeOf workspace <+: place → before.at? place = none :=
    fun place below => nothing_below rooted opened.fresh below
  constructor
  · intro place outside
    by_cases below : placeOf workspace <+: place
    · have some_name : place ≠ [] := by
        rintro rfl
        exact opened.inside (List.prefix_nil.mp below)
      left
      rw [removeTree_inside there below some_name, nothing place below]
    · rw [removeTree_outside last below]
      have earlier := opened.frame.same place not_false
      have apart : place ≠ placeOf workspace := by
        rintro rfl
        exact below List.prefix_rfl
      rcases frame.same place (by simp [below, outside]) with kept | ⟨new, free, there⟩
      · rw [kept]
        rcases earlier with same | ⟨way, free, there⟩
        · exact .inl same
        · exact .inr ⟨.inl (way.resolve_right apart), free, there⟩
      · rcases earlier with same | ⟨way, absent, held⟩
        · exact .inr ⟨.inr new, same.symm.trans free, there⟩
        · cases held.symm.trans free
  · intro place directory
    have apart : ¬ placeOf workspace <+: place := by
      intro below
      cases (nothing place below).symm.trans directory
    rw [removeTree_outside last apart]
    exact frame.firm place (opened.frame.firm place directory)

/-- As long as the directory is not removed, there is more than before where nothing was. -/
theorem uncleared {made files : List String → Prop} {last : Disk} (opened : Opened parent workspace before after)
    (rooted : Rooted before) (frame : Frame made (fun place => placeOf workspace <+: place ∨ files place) after last) :
    Frame (fun _ => False) (fun place => files place ∨ before.at? place = none) before last := by
  refine ⟨?_, fun place there => frame.firm place (opened.frame.firm place there)⟩
  intro place outside
  rw [not_or] at outside
  obtain ⟨elsewhere, taken⟩ := outside
  have apart : ¬ placeOf workspace <+: place := fun below => taken (nothing_below rooted opened.fresh below)
  left
  rcases opened.frame.same place not_false with same | ⟨-, free, -⟩
  · rcases frame.same place (by simp [apart, elsewhere]) with kept | ⟨-, free, -⟩
    · exact kept.trans same
    · exact absurd (same.symm.trans free) taken
  · exact absurd free taken

end Opened

variable {machine : Machine}

theorem makeBelow_opened (parent : String) :
    Ensures (Job.ask (.makeWorkspace parent)) machine fun
      | .ok workspace, after => Opened parent workspace machine.disk after.disk
      | .error _, after => after = machine := by
  apply Ensures.ask
  have named := freeWorkspace_named machine.disk parent machine.disk.entries.length 0
  have absent := freeWorkspace_free machine.disk parent
  simp only [Machine.perform, Machine.makeWorkspace]
  cases found : machine.disk.locate
    (Machine.freeWorkspace machine.disk parent machine.disk.entries.length 0) with
  | error fault => rfl
  | ok place =>
    obtain rfl := locate_placeOf found
    generalize Machine.freeWorkspace machine.disk parent machine.disk.entries.length 0 = workspace at *
    have fresh : machine.disk.at? (placeOf workspace) = none := by
      cases held : machine.disk.at? (placeOf workspace) with
      | none => rfl
      | some entry => simp [Disk.exists?, Disk.find, found, held] at absent
    have firm := firm_put_directory machine.disk (placeOf workspace)
    refine ⟨named, fresh, locate_firm firm found, at?_put_directory _ _, ?_, firm⟩
    intro place _
    by_cases same : place = placeOf workspace
    · subst same
      exact .inr ⟨.inr rfl, fresh, at?_put_directory _ _⟩
    · exact .inl (at?_put_other _ _ same)

/-- Below it a render stages its inputs, in a directory of its own. -/
def stagingDirectory (settings : Settings) : String :=
  settings.stagingRoot.getD temporaryDirectory

private theorem makeWorkspace_opened (machine : Machine) (settings : Settings) :
    Ensures (makeWorkspace settings) machine fun
      | .ok workspace, after =>
        Opened (stagingDirectory settings) workspace machine.disk after.disk
      | .error _, after =>
        Frame (Through (stagingDirectory settings)) (fun _ => False) machine.disk after.disk := by
  unfold makeWorkspace stagingDirectory
  cases settings.stagingRoot with
  | none =>
    apply (makeBelow_opened temporaryDirectory).weaken
    intro result after holds
    cases result with
    | ok workspace => exact holds
    | error fault =>
      obtain rfl := holds
      exact .refl _
  | some root =>
    apply Ensures.bind (makeDirectories_grown machine root)
    rintro reply middle ⟨frame, stays⟩
    cases reply with
    | error fault => exact Ensures.pure frame
    | ok =>
      apply (makeBelow_opened root).weaken
      intro result after holds
      cases result with
      | error fault =>
        obtain rfl := holds
        exact frame
      | ok workspace =>
        refine ⟨holds.named, stays _ holds.fresh, holds.located, holds.directory, ?_⟩
        exact (frame.weaken (fun _ => .inl) fun _ inside => inside).trans holds.frame

variable {settings : Settings}

theorem makeWorkspace_ok {workspace : String} {made : Machine}
    (opened : (makeWorkspace settings).run machine = (.ok workspace, made)) :
    Opened (stagingDirectory settings) workspace machine.disk made.disk := by
  have holds := (makeWorkspace_opened machine settings).holds
  rw [opened] at holds
  exact holds

theorem makeWorkspace_error {fault : DiskFault} {after : Machine}
    (refused : (makeWorkspace settings).run machine = (.error fault, after)) :
    Frame (Through (stagingDirectory settings)) (fun _ => False) machine.disk after.disk := by
  have holds := (makeWorkspace_opened machine settings).holds
  rw [refused] at holds
  exact holds

end Montage.Proofs.RenderWorkspace
