import Montage.Proofs.FilterNotation
import Montage.Proofs.RenderPrograms
import Montage.Proofs.RenderStaging
import Montage.Proofs.RenderSteps

/-! What the engine is started with. The inputs of the filters, the input arguments and the staged files
are counted by three parts of a render, and all three count alike. -/

namespace Montage.Proofs.RenderLayout
open Montage.Filter Montage.Render JobLogic DiskFrame PathJoin StagedNames EncodedImages RenderPrograms RenderStaging
  RenderOutput RenderSteps

def started (job : Job α) (machine : Machine) : List Launch :=
  (job.run machine).2.launches.drop machine.launches.length

/-- The arguments that hand filters to the engine. Without a sound of its own a graph passes on that of
the source. -/
def selection (text : String) : Compiled → List String
  | .simple _ => ["-vf", text]
  | .complex _ hasSound =>
    ["-filter_complex", text, "-map", "[vout]", "-map", if hasSound then "[aout]" else "0:a?"]

def contents (inputs : Inputs) (image : Option ByteArray) : List ByteArray :=
  inputs.source.content :: inputs.clips.map (·.content) ++ image.toList

/-- A directory made for one render below another one. -/
def IsWorkspace (parent workspace : String) : Prop :=
  ∃ number : Nat, workspace = Path.join parent ("render-" ++ toString number)

/-- What an engine is started with, and where it lies. -/
structure Layout where
  workspace : String
  paths : List String
  image : Option ByteArray
  subtitles : Option String
  hasSound : Bool
  compiled : Compiled
  text : String
  output : String

def Layout.plan (layout : Layout) (request : Request) : Plan :=
  .ofRequest request layout.subtitles layout.hasSound

/-- The filters of the plan read no other inputs than there are, and the content of each input is in a file
of its own. -/
structure Lays (settings : Settings) (inputs : Inputs) (launch : Launch) (layout : Layout) : Prop where
  program : launch.program = settings.engine
  compiles : (layout.plan inputs.request).compile settings.canvas = some (.ok layout.compiled)
  text : layout.compiled.argument = .ok layout.text
  arguments : launch.arguments = "-y" :: layout.paths.flatMap (["-i", ·]) ++ selection layout.text layout.compiled ++
    settings.encoding.arguments ++ [layout.output]
  output : IsOutput (settings.outputDirectory inputs.project) inputs.project inputs.request.outputName layout.output
  pictures : Pictures inputs.request layout.image
  overlaid : (layout.plan inputs.request).hasOverlay = layout.image.isSome
  count : layout.paths.length = (layout.plan inputs.request).inputCount
  indices : ∃ readings, FilterGrammar.parse layout.text = some readings ∧ ∀ reading ∈ readings, ∀ index stream,
    .input index stream ∈ reading.inputs → index < layout.paths.length
  holds : layout.paths.map launch.disk.read = (contents inputs layout.image).map .ok
  subtitled : layout.subtitles = none ↔ inputs.request.cues = []
  named : IsWorkspace (settings.stagingRoot.getD temporaryDirectory) layout.workspace
  there : launch.disk.find layout.workspace = .ok .directory
  distinct : (layout.paths ++ layout.subtitles.toList).Nodup
  inside : ∀ path ∈ layout.paths ++ layout.subtitles.toList,
    ∃ name, Plain name ∧ Path.parts path = Path.parts layout.workspace ++ [name]

/-- The engine was started on the inputs of a render. -/
def LaidOut (settings : Settings) (inputs : Inputs) (launch : Launch) : Prop :=
  ∃ layout, Lays settings inputs launch layout

theorem assemble_ok {program output : String} {staged : Command.Inputs} {compiled : Compiled} {encoding : Encoding}
    {command : Command} (assembled : Command.assemble program staged compiled encoding output = .ok command) :
    ∃ text, compiled.argument = .ok text ∧ command.program = program ∧ command.output = output ∧
      command.allArguments = "-y" :: staged.paths.flatMap (["-i", ·]) ++ selection text compiled ++
        encoding.arguments ++ [output] := by
  unfold Command.assemble at assembled
  cases argument : compiled.argument with
  | error fault =>
    rw [argument] at assembled
    cases assembled
  | ok text =>
    rw [argument] at assembled
    cases assembled
    refine ⟨text, rfl, ?_⟩
    cases compiled <;>
      simp [Command.filterVideo, Command.filterGraph, Command.take, Command.addArguments, Command.allArguments,
        selection, bracketed, videoOutput, soundOutput]

private theorem argument_inputs {plan : Plan} {canvas : Canvas} {compiled : Compiled} {text : String}
    (compiles : plan.compile canvas = some (.ok compiled)) (argument : compiled.argument = .ok text) :
    ∃ readings, FilterGrammar.parse text = some readings ∧ ∀ reading ∈ readings, ∀ index stream,
      .input index stream ∈ reading.inputs → index < plan.inputCount := by
  obtain ⟨-, same⟩ := FilterCompile.compile_ok compiles
  cases same
  refine ⟨_, FilterNotation.argument_parsed argument, ?_⟩
  intro reading member index stream reads
  obtain ⟨node, inside, rfl⟩ := List.mem_map.mp member
  unfold FilterCompile.compiledOf at inside
  split at inside
  · obtain rfl := List.mem_singleton.mp inside
    cases reads
  · obtain ⟨left, runs, -⟩ := FilterCompile.graph_runs plan canvas
    exact (FilterWiring.nodes_known runs node inside).2.1 index stream reads

theorem workspace_plain (number : Nat) : Plain ("render-" ++ toString number) := by
  have digits : '/' ∉ Nat.toDigits 10 number := fun slash =>
    absurd (Nat.isDigit_of_mem_toDigits (by decide) (by decide) slash) (by decide)
  constructor
  · simp
  · intro same
    simpa using congrArg String.toList same
  · intro same
    simpa using congrArg String.toList same
  · simp [digits]

theorem freeWorkspace_named (disk : Disk) (parent : String) (left number : Nat) :
    IsWorkspace parent (Machine.freeWorkspace disk parent left number) := by
  induction left generalizing number with
  | zero => exact ⟨number, rfl⟩
  | succ left ih =>
    simp only [Machine.freeWorkspace]
    split
    · exact ih (number + 1)
    · exact ⟨number, rfl⟩

variable {machine : Machine}

structure Made (parent workspace : String) (place : List String) (disk : Disk) : Prop where
  named : IsWorkspace parent workspace
  found : disk.locate workspace = .ok place
  directory : disk.at? place = some .directory

theorem Made.opens {parent workspace : String} {place : List String} {disk : Disk}
    (made : Made parent workspace place disk) : Open workspace := by
  obtain ⟨number, rfl⟩ := made.named
  exact open_join _ (workspace_plain number)

/-- What asking for a workspace comes to. Nothing is started, whether there is one then or not. -/
def Asked (parent : String) (before : Machine) : Except DiskFault String → Machine → Prop
  | .ok workspace, after => Idle before after ∧ ∃ place, Made parent workspace place after.disk
  | .error _, after => Idle before after

private theorem makeBelow_ensures (machine : Machine) (parent : String) :
    Ensures (Job.ask (.makeWorkspace parent)) machine (Asked parent machine) := by
  apply Ensures.ask
  have named := freeWorkspace_named machine.disk parent machine.disk.entries.length 0
  simp only [Machine.perform, Machine.makeWorkspace]
  cases found : machine.disk.locate
    (Machine.freeWorkspace machine.disk parent machine.disk.entries.length 0) with
  | error fault => exact Idle.refl machine
  | ok place =>
    exact ⟨⟨rfl, rfl⟩, place, named, locate_firm (firm_put_directory _ place) found, at?_put_directory _ place⟩

private theorem makeWorkspace_ensures (machine : Machine) (settings : Settings) :
    Ensures (makeWorkspace settings) machine
      (Asked (settings.stagingRoot.getD temporaryDirectory) machine) := by
  unfold makeWorkspace
  cases settings.stagingRoot with
  | none => exact makeBelow_ensures machine temporaryDirectory
  | some root =>
    apply Ensures.bind (makeDirectories_ensures root)
    intro reply middle grown
    cases reply with
    | error fault => exact Ensures.pure grown.toIdle
    | ok =>
      apply (makeBelow_ensures middle root).weaken
      intro result after holds
      cases result with
      | ok workspace => exact ⟨grown.toIdle.trans holds.1, holds.2⟩
      | error fault => exact grown.toIdle.trans holds

private theorem note_idle (path entry : String) :
    Ensures (Audit.note path entry) machine fun _ after => Idle machine after :=
  Ensures.ask (.change machine _)

private theorem judge_attempts (settings : Settings) (path : String) (outcome : Outcome) :
    Attempts (judge settings path outcome) machine (fun _ after => after = machine)
      (fun _ after => after = machine) := by
  unfold judge
  split
  · exact Attempts.fail rfl
  · apply Attempts.bind (Attempts.ofJob (Ensures.asked _))
    rintro size after ⟨-, rfl⟩
    split
    · exact Attempts.pure rfl
    · exact Attempts.fail rfl
  · exact Attempts.fail rfl

private theorem invoke_attempts (settings : Settings) (command : Command) (log : String) :
    Attempts (invoke settings command log) machine
      (fun _ after => Starts (· = ⟨command.program, command.allArguments, machine.disk⟩) machine after)
      (fun _ after => Starts (· = ⟨command.program, command.allArguments, machine.disk⟩) machine after) := by
  have runs := runProgram_starts machine command.program command.allArguments
  apply Attempts.bind (Attempts.ofJob (Ensures.asked _))
  rintro result middle ⟨-, rfl⟩
  cases result with
  | error fault =>
    apply Attempts.bind (Attempts.ofJob (note_idle _ _))
    intro _ last noted
    exact Attempts.fail (runs.trans (.of_idle noted))
  | ok finished =>
    apply Attempts.bind (Attempts.ofJob (note_idle _ _))
    intro _ last noted
    have done := runs.trans (.of_idle noted)
    apply (judge_attempts settings command.output _).weaken
    · rintro _ _ rfl
      exact done
    · rintro _ _ rfl
      exact done

private theorem removeIfEmpty_idle (path : String) :
    Ensures (removeIfEmpty path) machine fun _ after => Idle machine after := by
  apply Ensures.bind (Ensures.asked _)
  rintro size after ⟨-, rfl⟩
  split
  · apply Ensures.bind (Ensures.asked _)
    rintro reply last ⟨-, rfl⟩
    exact Ensures.pure (.change _ _)
  · exact Ensures.pure (.refl _)

private theorem conclude_ensures (settings : Settings) (counts : Counts) (command : Command) (log : String)
    (outcome : Except Fault Nat) :
    Ensures (conclude settings counts command log outcome) machine fun _ after =>
      Starts (Asks settings) machine after := by
  cases outcome with
  | ok size =>
    apply Ensures.bind (probe_ensures settings command.output)
    rintro info after ⟨starts, -⟩
    exact Ensures.pure starts
  | error fault =>
    apply Ensures.bind (removeIfEmpty_idle command.output)
    intro _ after idle
    exact Ensures.pure (.of_idle idle)

def Expected (settings : Settings) (inputs : Inputs) (launch : Launch) : Prop :=
  Asks settings launch ∨ LaidOut settings inputs launch

private theorem inputFiles_contents (inputs : Inputs) : (inputFiles inputs).map Prod.snd =
    contents inputs (overlayImage inputs.request) := by
  have clips : (clipFiles 0 inputs.clips).map Prod.snd = inputs.clips.map (·.content) := by
    apply List.ext_getElem <;> simp [clipFiles]
  simp [inputFiles, uploadFiles, overlayFiles, contents, clips, Function.comp_def]

private theorem contents_length {inputs : Inputs} {image : Option ByteArray} (subtitles : Option String)
    (hasSound : Bool)
    (enough : inputs.clips.length = inputs.request.clips.length) (pictures : Pictures inputs.request image) :
    (contents inputs image).length = (Plan.ofRequest inputs.request subtitles hasSound).inputCount := by
  simp only [contents, Plan.inputCount, Plan.ofRequest, pictures_isSome pictures, ← enough]
  cases image <;> simp [Nat.add_comm]

private theorem staged_apart {workspace : String} (opens : Open workspace) (inputs : Inputs) :
    ((stagedNames inputs).map (Path.join workspace ·)).Nodup ∧
      ∀ path ∈ (stagedNames inputs).map (Path.join workspace ·),
        ∃ name, Plain name ∧ Path.parts path = Path.parts workspace ++ [name] := by
  have plain := stagedNames_plain inputs
  constructor
  · rw [List.Nodup, List.pairwise_map]
    apply List.Pairwise.imp_of_mem _ (stagedNames_nodup inputs)
    intro first second one two apart same
    exact apart (join_injective opens (plain first one) (plain second two) same)
  · intro path member
    obtain ⟨name, staged, rfl⟩ := List.mem_map.mp member
    exact ⟨name, plain name staged, parts_join opens (plain name staged)⟩

private theorem laidOut_of_ready {settings : Settings} {inputs : Inputs} {workspace output : String}
    {place : List String}
    {staged : Staged} {hasSound : Bool} {compiled : Compiled} {command : Command} {disk : Disk}
    (enough : inputs.clips.length = inputs.request.clips.length)
    (named : IsWorkspace (settings.stagingRoot.getD temporaryDirectory) workspace)
    (ready : Ready inputs workspace place staged disk)
    (compiles : (Plan.ofRequest inputs.request staged.subtitles hasSound).compile settings.canvas = some (.ok compiled))
    (chosen : IsOutput (settings.outputDirectory inputs.project) inputs.project inputs.request.outputName output)
    (assembled : Command.assemble settings.engine staged.inputs compiled settings.encoding output = .ok command) :
    LaidOut settings inputs ⟨command.program, command.allArguments, disk⟩ := by
  obtain ⟨text, argument, program, -, arguments⟩ := assemble_ok assembled
  have opens : Open workspace := by
    obtain ⟨number, rfl⟩ := named
    exact open_join _ (workspace_plain number)
  have count : staged.inputs.paths.length =
      (Plan.ofRequest inputs.request staged.subtitles hasSound).inputCount := by
    rw [← contents_length staged.subtitles hasSound enough ready.overlay, ← inputFiles_contents, ready.paths]
    simp
  have reads : staged.inputs.paths.map disk.read = (contents inputs (overlayImage inputs.request)).map .ok := by
    rw [ready.paths, ← inputFiles_contents, List.map_map, List.map_map]
    exact List.map_congr_left fun file member => ready.holds.read member
  have there : disk.find workspace = .ok .directory := by
    simp [Disk.find, ready.holds.found, ready.holds.directory]
  have all : staged.inputs.paths ++ staged.subtitles.toList = (stagedNames inputs).map (Path.join workspace ·) := by
    simp [ready.paths, ready.subtitles, stagedNames, Function.comp_def]
  have apart := staged_apart opens inputs
  rw [← all] at apart
  exact ⟨{ workspace, paths := staged.inputs.paths, image := overlayImage inputs.request, subtitles := staged.subtitles,
           hasSound, compiled, text, output },
    { program, compiles, text := argument, arguments, output := chosen, pictures := ready.overlay
      overlaid := pictures_isSome ready.overlay
      count
      indices := count ▸ argument_inputs compiles argument
      holds := reads
      subtitled := ready.subtitled
      named, there
      distinct := apart.1
      inside := apart.2 }⟩

private theorem work_attempts {settings : Settings} {inputs : Inputs} {workspace : String} {place : List String}
    (made : Made (settings.stagingRoot.getD temporaryDirectory) workspace place machine.disk)
    (reads_only : ReadsOnly settings.prober machine) (enough : inputs.clips.length = inputs.request.clips.length) :
    Attempts (work settings inputs workspace) machine
      (fun _ after => Starts (Expected settings inputs) machine after)
      (fun _ after => Starts (Expected settings inputs) machine after) := by
  apply Attempts.bind ((stage_attempts settings inputs made.opens made.found made.directory).weaken
    (fun _ _ holds => holds) fun _ _ idle => .of_idle idle)
  rintro staged first ⟨idle, ready⟩
  apply Attempts.bind (Attempts.ofJob (probe_ensures settings staged.inputs.source))
  rintro info second ⟨asks, untouched⟩
  have asked : Starts (Expected settings inputs) machine second :=
    (Starts.of_idle idle).trans (asks.weaken fun _ => .inl)
  have ready : Ready inputs workspace place staged second.disk := by
    rw [untouched (reads_only.kept idle.programs)]
    exact ready
  apply Attempts.bind (compile_attempts settings _ fun _ => asked)
  rintro compiled second ⟨compiles, rfl⟩
  apply Attempts.bind (Attempts.ofJob (Ensures.asked .now))
  rintro instant second ⟨-, rfl⟩
  -- From here to the engine the disk only grows, so that what was staged is still there.
  have grows : ∀ {after}, Grows second after → Starts (Expected settings inputs) machine after :=
    fun grown => asked.trans (.of_idle grown.toIdle)
  apply Attempts.bind ((Attempts.ofDisk_always (makeDirectories_ensures _)).weaken (fun _ _ holds => holds)
    fun _ _ grown => grows grown)
  intro _ third directories
  apply Attempts.bind ((outputPath_attempts _ _ _ _).weaken (fun _ _ holds => holds)
    fun _ _ grown => grows (directories.trans grown))
  rintro output fourth ⟨reserved, chosen⟩
  have room := directories.trans reserved
  apply Attempts.bind (Attempts.ofExcept _ _ fun _ => grows room)
  rintro command fourth ⟨assembled, rfl⟩
  apply Attempts.bind ((Attempts.ofDisk_always (create_ensures _ _ _ _ _)).weaken (fun _ _ holds => holds)
    fun _ _ grown => grows (room.trans grown))
  intro log fifth logged
  have room := room.trans logged
  have laid := laidOut_of_ready enough made.named (ready.kept room.disk) compiles chosen assembled
  apply Attempts.bind (Attempts.ofJob (invoke_attempts settings command log).always)
  intro result sixth engine
  apply Attempts.ofJob
  apply (conclude_ensures settings _ command log result).weaken
  intro _ last asks
  have engine : Starts (Expected settings inputs) fifth sixth := engine.weaken fun _ same => .inr (same ▸ laid)
  exact ((grows room).trans engine).trans (asks.weaken fun _ => .inl)

private theorem execute_ensures {settings : Settings} (inputs : Inputs)
    (reads_only : ReadsOnly settings.prober machine) :
    Ensures (execute settings inputs).run machine fun _ after => Starts (Expected settings inputs) machine after := by
  unfold execute
  change Ensures (if _ then _ else _) machine _
  split
  · exact Ensures.pure (.refl machine)
  next enough =>
    have enough : inputs.clips.length = inputs.request.clips.length := by simpa using enough
    apply Ensures.bind (makeWorkspace_ensures machine settings)
    intro result middle asked
    cases result with
    | error fault => exact Ensures.pure (.of_idle asked)
    | ok workspace =>
      obtain ⟨idle, place, made⟩ := asked
      apply Ensures.bind (work_attempts made (reads_only.kept idle.programs) enough).always
      intro result last starts
      have started := (Starts.of_idle idle).trans starts
      by_cases endless : result = .error .endless
      · subst endless
        exact Ensures.pure started
      · rw [leave_ended endless]
        apply Ensures.bind (Ensures.asked _)
        rintro _ cleared ⟨-, rfl⟩
        exact Ensures.pure (started.trans (.of_idle ⟨rfl, rfl⟩))

private theorem render_ensures {settings : Settings} (inputs : Inputs)
    (reads_only : ReadsOnly settings.prober machine) :
    Ensures (render settings inputs) machine fun _ after => Starts (Expected settings inputs) machine after := by
  apply Ensures.bind (findEngine_attempts settings.engine)
  intro result after found
  cases result with
  | error fault =>
    obtain rfl := found
    exact Ensures.pure (.refl _)
  | ok engine =>
    obtain rfl := found
    apply Ensures.bind (execute_ensures inputs reads_only)
    intro result last starts
    exact Ensures.pure starts

/-- Whatever a render is asked for and whatever the uploads are called, every program that it starts is
the prober, asked about a file, or the engine, laid out for the inputs. -/
theorem render_laid_out (settings : Settings) (inputs : Inputs) (machine : Machine)
    (reads_only : ReadsOnly settings.prober machine) :
    ∀ launch ∈ started (render settings inputs) machine,
      Asks settings launch ∨ LaidOut settings inputs launch := by
  obtain ⟨⟨more, launches, expected⟩, -⟩ := (render_ensures inputs reads_only).holds
  intro launch member
  rw [started, launches, List.drop_left] at member
  exact expected launch member

/-- A machine with an engine that writes its output and a prober that finds sound. -/
def standardMachine : Machine where
  disk := ⟨[(["tmp"], .directory)]⟩
  programs :=
    [("ffmpeg", { behave := fun _ _ => { writes := some ⟨#[0]⟩ } }),
      ("ffprobe",
        { behave := fun _ _ => { stdout := "\x7b\"streams\":[\x7b\"codec_type\":\"audio\"\x7d]\x7d".toUTF8 } })]

/-- Inputs whose names try to lead elsewhere, with an image and a subtitle. -/
def strayInputs : Inputs where
  project := "p"
  request :=
    { source := "s"
      clips := [{ id := "c" }]
      cues := [{ text := "Hello" }]
      frame := some "data:image/png;base64, AwQ=\n"
      outputName := some "../film.mp4" }
  source := ⟨"/etc/source.ASS", ⟨#[1]⟩⟩
  clips := [⟨"../source.ass", ⟨#[2]⟩⟩]

/-- Such a render does start the engine, and on three inputs, the last of which is the image. -/
theorem stray_inputs_laid_out : ReadsOnly "ffprobe" standardMachine ∧
    Pictures strayInputs.request (some ⟨#[3, 4]⟩) ∧
    ∃ launch ∈ started (render {} strayInputs) standardMachine,
      launch.program = "ffmpeg" ∧ launch.arguments.count "-i" = 3 ∧ LaidOut {} strayInputs launch := by
  have reads_only : ReadsOnly "ffprobe" standardMachine := by
    intro program known disk path
    cases known
    rfl
  have runs : ("ffmpeg", 3) ∈ (started (render {} strayInputs) standardMachine).map fun launch =>
      (launch.program, launch.arguments.count "-i") := by
    decide +kernel
  have pictures : Pictures strayInputs.request (some ⟨#[3, 4]⟩) :=
    ⟨_, rfl, [' '], ['\n'], by simp [Text.isBlank], by decide +kernel⟩
  obtain ⟨launch, member, both⟩ := List.mem_map.mp runs
  obtain ⟨engine, three⟩ := Prod.mk.inj both
  refine ⟨reads_only, pictures, launch, member, engine, three, ?_⟩
  rcases render_laid_out {} strayInputs standardMachine reads_only launch member with asks | laid
  · have prober : launch.program = "ffprobe" := asks.1
    rw [engine] at prober
    exact absurd prober (by decide)
  · exact laid

end Montage.Proofs.RenderLayout
