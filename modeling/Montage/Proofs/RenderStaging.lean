import Montage.Proofs.EncodedImages
import Montage.Proofs.JobLogic
import Montage.Proofs.StagedNames
import Montage.Render.Run

/-! What staging leaves in the workspace: one file for each input, under a name of its own, with the
content of that input. -/

namespace Montage.Proofs.RenderStaging
open Montage.Render JobLogic DiskFrame PathJoin StagedNames EncodedImages

/-- A directory is at a place, and files below it have names and contents. -/
structure Holds (workspace : String) (place : List String) (files : List (String × ByteArray)) (disk : Disk) :
    Prop where
  found : disk.locate workspace = .ok place
  directory : disk.at? place = some .directory
  located : ∀ file ∈ files, disk.locate (Path.join workspace file.1) = .ok (place ++ [file.1])
  content : ∀ file ∈ files, disk.at? (place ++ [file.1]) = some (.file file.2)

variable {workspace : String} {place : List String} {files : List (String × ByteArray)}

namespace Holds

theorem kept {before after : Disk} (holds : Holds workspace place files before) (more : Extends before after) :
    Holds workspace place files after where
  found := locate_firm more.firm holds.found
  directory := more _ _ holds.directory
  located file member := locate_firm more.firm (holds.located file member)
  content file member := more _ _ (holds.content file member)

theorem subset {disk : Disk} (holds : Holds workspace place files disk) {some_files : List (String × ByteArray)}
    (subset : ∀ file ∈ some_files, file ∈ files) : Holds workspace place some_files disk where
  found := holds.found
  directory := holds.directory
  located file member := holds.located file (subset file member)
  content file member := holds.content file (subset file member)

theorem read {disk : Disk} (holds : Holds workspace place files disk) {file : String × ByteArray}
    (member : file ∈ files) : disk.read (Path.join workspace file.1) = .ok file.2 :=
  read_of_at (holds.located file member) (holds.content file member)

/-- Writing under a new name leaves the other files alone. -/
theorem write {before after : Disk} (holds : Holds workspace place files before) (below : Open workspace)
    {name : String} (plain : Plain name) (fresh : name ∉ files.map Prod.fst) {content : ByteArray}
    (written : before.write (Path.join workspace name) content = .ok after) :
    Holds workspace place (files ++ [(name, content)]) after := by
  obtain ⟨target, located, file, rfl⟩ := write_ok written
  obtain rfl := locate_join below plain holds.found located
  have firm := firm_put_file content file
  refine ⟨locate_firm firm holds.found, firm _ holds.directory, ?_, ?_⟩
  · intro other member
    rcases List.mem_append.mp member with old | new
    · exact locate_firm firm (holds.located other old)
    · obtain rfl := List.mem_singleton.mp new
      exact locate_firm firm located
  · intro other member
    rcases List.mem_append.mp member with old | new
    · rw [at?_put_other before]
      · exact holds.content other old
      · intro same
        have names : other.1 = name := List.head_eq_of_cons_eq (List.append_cancel_left same)
        exact fresh (names ▸ List.mem_map_of_mem old)
    · obtain rfl := List.mem_singleton.mp new
      exact at?_put_same before _ (inside_of_not_directory file)

end Holds

variable {machine : Machine}

theorem writeFile_attempts (holds : Holds workspace place files machine.disk) (below : Open workspace)
    {name : String} (plain : Plain name) (fresh : name ∉ files.map Prod.fst) (content : ByteArray) :
    Attempts (writeFile (Path.join workspace name) content) machine
      (fun _ after => Idle machine after ∧ Holds workspace place (files ++ [(name, content)]) after.disk)
      (fun _ after => Idle machine after) := by
  apply Attempts.ofDisk
  apply Ensures.ask
  simp only [Machine.perform]
  cases written : machine.disk.write (Path.join workspace name) content with
  | ok disk => exact ⟨⟨rfl, rfl⟩, holds.write below plain fresh written⟩
  | error fault => exact .refl machine

/-- The files of clips, the first of which has a given index. -/
def clipFiles (index : Nat) (clips : List Upload) : List (String × ByteArray) :=
  clips.mapIdx fun position clip => (clipName (index + position) clip.name, clip.content)

private theorem clipFiles_cons (index : Nat) (clip : Upload) (rest : List Upload) :
    clipFiles index (clip :: rest) = (clipName index clip.name, clip.content) :: clipFiles (index + 1) rest := by
  simp [clipFiles, List.mapIdx_cons, Nat.add_comm, Nat.add_left_comm]

private theorem stageClips_attempts (below : Open workspace) (clips : List Upload) (index : Nat)
    (holds : Holds workspace place files machine.disk)
    (fresh : ((files ++ clipFiles index clips).map Prod.fst).Nodup) :
    Attempts (stageClips workspace index clips) machine
      (fun paths after => Idle machine after ∧
        paths = (clipFiles index clips).map (Path.join workspace ·.1) ∧
        Holds workspace place (files ++ clipFiles index clips) after.disk)
      (fun _ after => Idle machine after) := by
  induction clips generalizing index files machine with
  | nil => exact Attempts.pure ⟨.refl machine, rfl, by simpa [clipFiles] using holds⟩
  | cons clip rest ih =>
    rw [clipFiles_cons] at fresh ⊢
    have split : files ++ (clipName index clip.name, clip.content) :: clipFiles (index + 1) rest =
        files ++ [(clipName index clip.name, clip.content)] ++ clipFiles (index + 1) rest := by simp
    have absent : clipName index clip.name ∉ files.map Prod.fst := by
      intro member
      rw [List.map_append, List.nodup_append] at fresh
      exact fresh.2.2 _ member _ (by simp) rfl
    rw [split] at fresh ⊢
    apply Attempts.bind (writeFile_attempts holds below (named_clip index clip.name).plain absent clip.content)
    rintro - first ⟨idle, written⟩
    have later := ih (index + 1) written fresh
    apply Attempts.bind (later.weaken (fun _ _ holds => holds) fun _ _ still => idle.trans still)
    rintro paths last ⟨still, rfl, complete⟩
    exact Attempts.pure ⟨idle.trans still, rfl, complete⟩

/-- The overlay image of a request, if there is one and it is well encoded. -/
def overlayImage (request : Request) : Option ByteArray :=
  request.overlay.bind fun payload =>
    (Base64.decode (String.ofList (Text.trim payload.toList)).toUTF8.toList).toOption.map fun bytes =>
      ⟨bytes.toArray⟩

def overlayFiles (request : Request) : List (String × ByteArray) :=
  (overlayImage request).toList.map fun image => (overlayName, image)

private theorem stageOverlay_attempts (below : Open workspace) (request : Request)
    (holds : Holds workspace place files machine.disk) (fresh : overlayName ∉ files.map Prod.fst) :
    Attempts (stageOverlay workspace request) machine
      (fun path after => Idle machine after ∧
        path.toList = (overlayFiles request).map (Path.join workspace ·.1) ∧
        Pictures request (overlayImage request) ∧
        Holds workspace place (files ++ overlayFiles request) after.disk)
      (fun _ after => Idle machine after) := by
  unfold stageOverlay
  split
  next absent =>
    have image : overlayImage request = none := by rw [overlayImage, absent, Option.bind_none]
    refine Attempts.pure ⟨.refl machine, ?_⟩
    rw [overlayFiles, image, ← overlay_none_iff]
    simpa using ⟨absent, holds⟩
  next payload present =>
    split
    · exact Attempts.fail (.refl machine)
    next bytes decoded =>
      have image : overlayImage request = some ⟨bytes.toArray⟩ := by
        simp only [overlayImage, present, Option.bind_some, decoded, Except.toOption, Option.map_some]
      apply Attempts.bind (writeFile_attempts holds below named_overlay.plain fresh ⟨bytes.toArray⟩)
      rintro - after ⟨idle, written⟩
      refine Attempts.pure ⟨idle, ?_⟩
      rw [overlayFiles, image, ← decode_overlay_iff present]
      simpa using ⟨decoded, written⟩

/-- The name of the subtitle track of a request, if it has cues. -/
def subtitleNames (request : Request) : List String :=
  if request.cues.isEmpty then [] else [subtitlesName]

private theorem stageSubtitles_attempts (below : Open workspace) (request : Request) (canvas : Filter.Canvas)
    (holds : Holds workspace place files machine.disk) (fresh : subtitlesName ∉ files.map Prod.fst) :
    Attempts (stageSubtitles workspace request canvas) machine
      (fun path after => Idle machine after ∧
        path.toList = (subtitleNames request).map (Path.join workspace ·) ∧
        ∃ track, Holds workspace place (files ++ track) after.disk)
      (fun _ after => Idle machine after) := by
  unfold stageSubtitles
  split
  next none =>
    refine Attempts.pure ⟨.refl machine, by simp [subtitleNames, none], [], by simpa using holds⟩
  next some_cue =>
    apply Attempts.bind (writeFile_attempts holds below named_subtitles.plain fresh _)
    rintro - after ⟨idle, written⟩
    exact Attempts.pure ⟨idle, by simp [subtitleNames, some_cue], _, written⟩

def uploadFiles (inputs : Inputs) : List (String × ByteArray) :=
  (sourceName inputs.source.name, inputs.source.content) :: clipFiles 0 inputs.clips

def inputFiles (inputs : Inputs) : List (String × ByteArray) :=
  uploadFiles inputs ++ overlayFiles inputs.request

def stagedNames (inputs : Inputs) : List String :=
  (inputFiles inputs).map Prod.fst ++ subtitleNames inputs.request

private theorem names_uploads (inputs : Inputs) : names inputs.source.name (inputs.clips.map (·.name)) =
    (uploadFiles inputs).map Prod.fst ++ [overlayName, subtitlesName] := by
  have clips : (clipFiles 0 inputs.clips).map Prod.fst = (inputs.clips.map (·.name)).mapIdx clipName := by
    apply List.ext_getElem <;> simp [clipFiles]
  simp only [names, uploadFiles, List.map_cons, clips]

private theorem overlayFiles_sublist (request : Request) :
    ((overlayFiles request).map Prod.fst).Sublist [overlayName] := by
  unfold overlayFiles
  cases overlayImage request <;> simp

private theorem stagedNames_sublist (inputs : Inputs) :
    (stagedNames inputs).Sublist (names inputs.source.name (inputs.clips.map (·.name))) := by
  have subtitles : (subtitleNames inputs.request).Sublist [subtitlesName] := by
    unfold subtitleNames
    split <;> simp
  simp only [stagedNames, inputFiles, names_uploads, List.map_append, List.append_assoc]
  exact (List.Sublist.refl _).append ((overlayFiles_sublist inputs.request).append subtitles)

theorem stagedNames_nodup (inputs : Inputs) : (stagedNames inputs).Nodup :=
  (stagedNames_sublist inputs).nodup (names_nodup _ _)

theorem stagedNames_plain (inputs : Inputs) : ∀ name ∈ stagedNames inputs, Plain name :=
  fun name member => names_plain _ _ name ((stagedNames_sublist inputs).subset member)

/-- No upload takes a name that another file is staged under. -/
private theorem uploads_apart (inputs : Inputs) : ((uploadFiles inputs).map Prod.fst).Nodup ∧
    overlayName ∉ (uploadFiles inputs).map Prod.fst ∧ subtitlesName ∉ (inputFiles inputs).map Prod.fst := by
  have distinct := names_nodup inputs.source.name (inputs.clips.map (·.name))
  rw [names_uploads, List.nodup_append] at distinct
  obtain ⟨uploads, -, apart⟩ := distinct
  refine ⟨uploads, fun member => apart _ member overlayName (by simp) rfl, ?_⟩
  intro member
  rw [inputFiles, List.map_append] at member
  rcases List.mem_append.mp member with upload | overlay
  · exact apart _ upload subtitlesName (by simp) rfl
  · have same := (overlayFiles_sublist inputs.request).subset overlay
    exact absurd same (by decide)

structure Ready (inputs : Inputs) (workspace : String) (place : List String) (staged : Staged) (disk : Disk) :
    Prop where
  paths : staged.inputs.paths = (inputFiles inputs).map (Path.join workspace ·.1)
  subtitles : staged.subtitles.toList = (subtitleNames inputs.request).map (Path.join workspace ·)
  overlay : Pictures inputs.request (overlayImage inputs.request)
  holds : Holds workspace place (inputFiles inputs) disk

theorem Ready.subtitled {inputs : Inputs} {staged : Staged} {disk : Disk} (ready : Ready inputs workspace place staged disk) :
    staged.subtitles = none ↔ inputs.request.cues = [] := by
  have same := ready.subtitles
  rw [← Option.toList_eq_nil_iff, same, List.map_eq_nil_iff, subtitleNames]
  simp

theorem Ready.kept {inputs : Inputs} {staged : Staged} {before after : Disk}
    (ready : Ready inputs workspace place staged before) (more : Extends before after) :
    Ready inputs workspace place staged after :=
  ⟨ready.paths, ready.subtitles, ready.overlay, ready.holds.kept more⟩

/-- Staging writes every input to a file of its own. -/
theorem stage_attempts (settings : Settings) (inputs : Inputs) (below : Open workspace)
    (found : machine.disk.locate workspace = .ok place) (directory : machine.disk.at? place = some .directory) :
    Attempts (stage settings inputs workspace) machine
      (fun staged after => Idle machine after ∧ Ready inputs workspace place staged after.disk)
      (fun _ after => Idle machine after) := by
  obtain ⟨uploads, overlay_apart, subtitles_apart⟩ := uploads_apart inputs
  have start : Holds workspace place [] machine.disk := ⟨found, directory, by simp, by simp⟩
  apply Attempts.bind (writeFile_attempts start below (named_source _).plain (by simp) inputs.source.content)
  rintro - first ⟨idle, source⟩
  have clips := stageClips_attempts below inputs.clips 0 source uploads
  apply Attempts.bind (clips.weaken (fun _ _ holds => holds) fun _ _ still => idle.trans still)
  rintro paths second ⟨still, rfl, clips⟩
  have idle := idle.trans still
  have overlay := stageOverlay_attempts below inputs.request clips overlay_apart
  apply Attempts.bind (overlay.weaken (fun _ _ holds => holds) fun _ _ still => idle.trans still)
  rintro overlay third ⟨still, image, decoded, images⟩
  have idle := idle.trans still
  have subtitles := stageSubtitles_attempts below inputs.request settings.canvas images subtitles_apart
  apply Attempts.bind (subtitles.weaken (fun _ _ holds => holds) fun _ _ still => idle.trans still)
  rintro subtitles last ⟨still, names, track, complete⟩
  refine Attempts.pure ⟨idle.trans still, ?_, names, decoded, ?_⟩
  · simp [Command.Inputs.paths, inputFiles, uploadFiles, image]
  · exact complete.subset fun file member => List.mem_append_left track member

end Montage.Proofs.RenderStaging
