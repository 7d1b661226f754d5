import Montage.Proofs.FilterStages

/-! The sound of a compiled plan. Whether a graph has one does not follow from the nodes alone: a plan
may leave the sound of the source as it is, or have none to work on. -/

namespace Montage.Proofs.FilterSound
open Montage.Filter FilterEffects FilterAmounts FilterWiring FilterIntent FilterStages

variable {inputCount : Nat}

private theorem soundFilters_composed (segment : Segment) : Composed (soundFilters segment) := by
  simp [soundFilters, Composed, isComposed]

private theorem clipFilters_composed (item : Clip) : Composed (clipFilters item) := by
  intro filter treats
  obtain gain | delay := List.mem_append.mp treats
  · obtain ⟨volume, -, rfl⟩ := List.mem_map.mp gain
    rfl
  · obtain rfl := List.mem_singleton.mp delay
    rfl

private theorem soundStretch_eq (segment : Segment) :
    Signal.chain ((soundFilters segment).map effectOf) (.input 0 .sound) = soundStretch computed segment := by
  simp [soundFilters, soundStretch, effectOf, computed, Function.comp_def]

theorem clip_eq (index : Nat) (item : Clip) :
    Signal.chain ((clipFilters item).map effectOf) (.input (index + 1) .sound) = clip computed index item := by
  unfold clipFilters clip leveled
  cases item.volume with
  | none => rfl
  | some level => cases zero : level == 0 <;> simp [Option.filter, zero, Signal.chain, effectOf, computed]

private theorem clips_take (clips : List Clip) (known : clips.length < inputCount) :
    ∃ scope, Runs inputCount [] (clipNodes clips) scope ∧
      Takes inputCount scope (clipPads clips) (clips.mapIdx (clip computed)) [] ∧
      written (clipNodes clips) = FilterLabels.clipLabels clips.length := by
  have takes := takes_items inputCount clips clipLabel
    fun index item => .chain ((clipFilters item).map effectOf) (.input (index + 1) .sound)
  simp only [clip_eq] at takes
  have runs := runs_items clips clipLabel (· + 1) .sound clipFilters
    (fun position inside => (by omega : position + 1 < inputCount)) (by simp [clipFilters]) clipFilters_composed
  simp only [clip_eq] at runs
  exact ⟨_, runs, takes, written_items clips clipLabel (fun index => .input (index + 1) .sound) clipFilters⟩

/-- Segments of sound, joined: the nodes, and what is left of their stretches. -/
private theorem segments_joined (segments : List Segment) (source : 0 < inputCount) :
    ∃ scope, Runs inputCount [] (segmentNodes segments .sound soundFilters) scope ∧
      Takes inputCount scope (segmentPads segments .sound) (segments.map (soundStretch computed)) [] ∧
      written (segmentNodes segments .sound soundFilters) = FilterLabels.segmentLabels segments.length .sound := by
  have taken := segments_take segments .sound soundFilters source (by simp [soundFilters]) soundFilters_composed
  simpa only [soundStretch_eq] using taken

theorem sourceSound_of_sound {plan : Plan} (sounds : plan.sourceHasSound = true) :
    sourceSound plan =
      (segmentNodes plan.segments .sound soundFilters ++
        (joined (segmentPads plan.segments .sound) .joinSound "acat" (.input 0 .sound)).1,
      [(joined (segmentPads plan.segments .sound) .joinSound "acat" (.input 0 .sound)).2]) := by
  simp [sourceSound, sounds]

theorem sourceSound_of_silence {plan : Plan} (silent : plan.sourceHasSound = false) :
    sourceSound plan = ([], []) := by
  simp [sourceSound, silent]

private theorem source_take (plan : Plan) (source : 0 < inputCount) :
    ∃ scope, Runs inputCount [] (sourceSound plan).1 scope ∧
      Takes inputCount scope (sourceSound plan).2
        (if plan.sourceHasSound then
          [combined (.join · 0 1) (.input 0 .sound) (plan.segments.map (soundStretch computed))] else []) [] ∧
      (written (sourceSound plan).1).Sublist
        (FilterLabels.segmentLabels plan.segments.length .sound ++ ["acat"]) := by
  cases sounds : plan.sourceHasSound with
  | false =>
    rw [sourceSound_of_silence sounds]
    exact ⟨[], .done (.refl _), .done (.refl _), List.nil_sublist _⟩
  | true =>
    obtain ⟨scope, first, takes, labels⟩ := segments_joined plan.segments source
    obtain ⟨middle, joins, only⟩ := joined_takes source takes .joinSound (fun _ => rfl) "acat" .sound
    rw [sourceSound_of_sound sounds]
    refine ⟨middle, first.append joins, only, ?_⟩
    rw [written_append, labels]
    exact (List.Sublist.refl _).append (written_joined ..)

private theorem contributors_take (plan : Plan) :
    ∃ scope, Runs plan.inputCount [] ((sourceSound plan).1 ++ clipNodes plan.clips) scope ∧
      Takes plan.inputCount scope ((sourceSound plan).2 ++ clipPads plan.clips) (contributors computed plan) [] ∧
      (written ((sourceSound plan).1 ++ clipNodes plan.clips)).Sublist
        (FilterLabels.segmentLabels plan.segments.length .sound ++ ["acat"] ++
          FilterLabels.clipLabels plan.clips.length) := by
  have known : plan.clips.length < plan.inputCount := by
    unfold Plan.inputCount
    omega
  have source : 0 < plan.inputCount := by omega
  obtain ⟨sourceScope, first, some_source, bounded⟩ := source_take plan source
  obtain ⟨clipScope, second, some_clips, labels⟩ := clips_take plan.clips known
  refine ⟨clipScope ++ sourceScope, first.append (second.frame sourceScope), ?_, ?_⟩
  · exact ((some_source.frame clipScope).append some_clips).perm List.perm_append_comm
  · rw [written_append, labels]
    exact bounded.append (.refl _)

private theorem segments_yield (segments : List Segment) (source : 0 < inputCount) (cut : segments ≠ []) :
    ∃ name, (joined (segmentPads segments .sound) .joinSound "acat" (.input 0 .sound)).2 = .label name ∧
      Yields inputCount (segmentNodes segments .sound soundFilters ++
          (joined (segmentPads segments .sound) .joinSound "acat" (.input 0 .sound)).1) name
        (combined (.join · 0 1) (.input 0 .sound) (segments.map (soundStretch computed))) := by
  obtain ⟨scope, first, takes, -⟩ := segments_joined segments source
  refine joined_yields first takes (by simpa [segmentPads] using cut) ?_ .joinSound (fun _ => rfl) "acat" .sound
  intro pad signal pads signals
  obtain ⟨segment, rfl, rfl⟩ := List.map_eq_singleton_iff.mp signals
  have only : Pad.label (segmentLabel 0 .sound) = pad := by simpa [segmentPads] using pads
  rw [← soundStretch_eq]
  exact ⟨segmentLabel 0 .sound, only.symm, Yields.of_chain (.done (.refl _)) (takes_input 0 .sound source)
    (by simp [soundFilters]) (soundFilters_composed segment) _⟩

/-- A single contributor of a plan that does not leave the sound alone, and has no gain of its own, is
the output of the last node. -/
private theorem single_yields (plan : Plan) (changes : plan.leavesSound = false)
    (level : plan.hasMasterVolume = false) (pad : Pad) (signal : Signal)
    (pads : (sourceSound plan).2 ++ clipPads plan.clips = [pad]) (signals : contributors computed plan = [signal]) :
    ∃ name, pad = .label name ∧
      Yields plan.inputCount ((sourceSound plan).1 ++ clipNodes plan.clips) name signal := by
  have known : plan.clips.length < plan.inputCount := by
    unfold Plan.inputCount
    omega
  cases sounds : plan.sourceHasSound with
  | true =>
    rw [sourceSound_of_sound sounds] at pads ⊢
    have alone : plan.clips = [] := by simpa [clipPads] using congrArg List.tail pads
    have cut : plan.segments ≠ [] := by
      intro whole
      simp [Plan.leavesSound, whole, alone, level] at changes
    obtain ⟨name, named, yields⟩ := segments_yield plan.segments (Nat.zero_lt_of_lt known) cut
    simp only [contributors, sounds, alone, if_true, List.mapIdx_nil, List.append_nil,
      List.cons.injEq, and_true] at signals
    simp only [alone, clipPads, List.mapIdx_nil, List.append_nil, List.cons.injEq, and_true] at pads
    refine ⟨name, pads ▸ named, ?_⟩
    rw [alone, ← signals]
    simpa [clipNodes] using yields
  | false =>
    rw [sourceSound_of_silence sounds] at pads ⊢
    have one : plan.clips.mapIdx (clip computed) = [signal] := by simpa [contributors, sounds] using signals
    obtain ⟨item, alone, rfl⟩ := List.mapIdx_eq_singleton_iff.mp one
    have only : Pad.label (clipLabel 0) = pad := by simpa [clipPads, alone] using pads
    refine ⟨clipLabel 0, only.symm, ?_⟩
    rw [← clip_eq, alone]
    exact Yields.of_chain (.done (.refl _)) (takes_input 1 .sound (by simpa [alone] using known))
      (by simp [clipFilters]) (clipFilters_composed item) _

def mixing (plan : Plan) : List Node × Pad :=
  joined ((sourceSound plan).2 ++ clipPads plan.clips) .mix "amixed" (.input 0 .sound)

def mixedNodes (plan : Plan) : List Node :=
  (sourceSound plan).1 ++ clipNodes plan.clips ++ (mixing plan).1

section
variable {plan : Plan}

/-- Whether there is a sound to compile follows from the plan. -/
theorem hasSound_iff : HasSound plan ↔
    plan.leavesSound = false ∧ (sourceSound plan).2 ++ clipPads plan.clips ≠ [] := by
  unfold HasSound Plan.leavesSound Plan.hasMasterVolume
  cases sounds : plan.sourceHasSound with
  | false =>
    rw [sourceSound_of_silence sounds]
    cases clips : plan.clips <;> simp [clipPads]
  | true =>
    rw [sourceSound_of_sound sounds]
    cases clips : plan.clips <;> cases segments : plan.segments <;> simp [clipPads]

theorem soundNodes_none (unasked : ¬HasSound plan) : soundNodes plan = none := by
  by_cases leaves : plan.leavesSound = true
  · simp only [soundNodes, leaves, if_true]
  · have silent : (sourceSound plan).2 ++ clipPads plan.clips = [] :=
      Decidable.not_not.mp fun some_pad => unasked (hasSound_iff.mpr ⟨by simpa using leaves, some_pad⟩)
    simp only [soundNodes, leaves, silent]
    rfl

private theorem soundNodes_leveled (asked : HasSound plan) (level : plan.hasMasterVolume = true) :
    soundNodes plan = some (mixedNodes plan ++
      [.chain (mixing plan).2 [.volume (linearGain plan.masterVolume)] soundOutput]) := by
  obtain ⟨changes, some_pad⟩ := hasSound_iff.mp asked
  have full : ((sourceSound plan).2 ++ clipPads plan.clips).isEmpty = false :=
    List.isEmpty_eq_false_iff.mpr some_pad
  simp only [soundNodes, changes, full, level]
  rfl

private theorem soundNodes_mixed (asked : HasSound plan) (level : plan.hasMasterVolume = false) {name : String}
    (named : (mixing plan).2 = .label name) :
    soundNodes plan =
      some ((relabelLast name soundOutput (mixedNodes plan)).getD (mixedNodes plan)) := by
  obtain ⟨changes, some_pad⟩ := hasSound_iff.mp asked
  have full : ((sourceSound plan).2 ++ clipPads plan.clips).isEmpty = false :=
    List.isEmpty_eq_false_iff.mpr some_pad
  unfold mixing at named
  simp only [soundNodes, changes, full, level, named]
  rfl

/-- The sound of a plan, if it asks for one, is what the nodes of the sound leave. -/
theorem soundNodes_yield (asked : HasSound plan) :
    ∃ nodes, soundNodes plan = some nodes ∧
      Yields plan.inputCount nodes soundOutput (sound computed plan) ∧
      (written nodes).Sublist (FilterLabels.soundLabels plan.segments.length plan.clips.length) := by
  obtain ⟨changes, some_pad⟩ := hasSound_iff.mp asked
  obtain ⟨scope, first, takes, bounded⟩ := contributors_take plan
  have source : 0 < plan.inputCount := by
    unfold Plan.inputCount
    omega
  have labels : (written (mixedNodes plan)).Sublist
      (FilterLabels.segmentLabels plan.segments.length .sound ++ ["acat"] ++
        FilterLabels.clipLabels plan.clips.length ++ ["amixed"]) := by
    rw [mixedNodes, written_append]
    exact bounded.append (written_joined ..)
  cases level : plan.hasMasterVolume with
  | true =>
    obtain ⟨middle, joins, only⟩ := joined_takes source takes .mix (fun _ => rfl) "amixed" .sound
    have leveled : (plan.masterVolume == 0) = false := by simpa [Plan.hasMasterVolume] using level
    refine ⟨_, soundNodes_leveled asked level, ?_, ?_⟩
    · have same : sound computed plan = .chain ([.volume (linearGain plan.masterVolume)].map effectOf)
          (combined .mix (.input 0 .sound) (contributors computed plan)) := by
        simp [sound, FilterIntent.leveled, leveled, Signal.chain, effectOf, computed]
      rw [same]
      exact Yields.of_chain (first.append joins) only (by simp) (by simp [Composed, isComposed]) soundOutput
    · rw [written_append]
      exact labels.append (.refl _)
  | false =>
    obtain ⟨name, named, yields⟩ := joined_yields first takes some_pad
      (single_yields plan changes level) .mix (fun _ => rfl) "amixed" .sound
    have leveled : (plan.masterVolume == 0) = true := by simpa [Plan.hasMasterVolume] using level
    obtain ⟨renamed, found, ended, bounds⟩ := yields.relabel soundOutput
    refine ⟨renamed, ?_, ?_, bounds _ labels⟩
    · rw [soundNodes_mixed asked level named]
      exact congrArg some (by rw [mixedNodes, mixing, found, Option.getD_some])
    · simpa only [sound, FilterIntent.leveled, leveled, if_true, effectOf] using ended

end

end Montage.Proofs.FilterSound
