import Montage.Encoding
import Montage.Environment
import Montage.Filter.Units
import Montage.Machine.Path
import Montage.Text.Blank

/-! What renders depend on besides their requests. -/

namespace Montage.Render

structure Settings where
  /-- Below it every project has a directory for what is rendered. -/
  dataRoot : String := "data"
  engine : String := "ffmpeg"
  prober : String := "ffprobe"
  /-- How long the engine may run, in milliseconds. -/
  timeout : Nat := 10800000
  /-- Below it inputs are staged; without one, in the directory for temporary files. -/
  stagingRoot : Option String := none
  canvas : Filter.Canvas := {}
  encoding : Encoding := {}
  deriving DecidableEq

namespace Settings

def outputDirectory (settings : Settings) (project : String) : String :=
  Path.join (Path.join settings.dataRoot project) "rendered"

def timeoutSeconds (settings : Settings) : Nat :=
  settings.timeout / 1000

def worstQuality : Nat := 51

/-- The encoding with the quality and the preset that the environment gives, if they make sense. -/
def encodingOf (environment : Environment) (encoding : Encoding) : Encoding :=
  let trimmed (name : String) : Option (List Char) :=
    (environment.get? name).map fun value => Text.trim value.toList
  { encoding with
    quality := (((trimmed "RENDER_CRF").bind (Number.readNatural worstQuality)).map
      UInt8.ofNat).getD encoding.quality
    preset := (((trimmed "RENDER_PRESET").filter fun preset => !preset.isEmpty).map
      String.ofList).getD encoding.preset }

/-- A size that the environment gives; zero does not count. -/
def sizeOf (environment : Environment) (name : String) (otherwise : UInt32) : UInt32 :=
  (((environment.natural? name (UInt32.size - 1)).filter (0 < ·)).map UInt32.ofNat).getD otherwise

/-- The settings that the environment gives. What cannot be read counts as not given. -/
def ofEnvironment (environment : Environment) : Settings :=
  let standard : Settings := {}
  { dataRoot := (environment.get? "DATA_ROOT").getD standard.dataRoot
    engine := (environment.get? "FFMPEG_PATH").getD standard.engine
    prober := (environment.get? "FFPROBE_PATH").getD standard.prober
    timeout := ((environment.natural? "RENDER_TIMEOUT_SECS" (UInt64.size - 1)).map
      (· * 1000)).getD standard.timeout
    stagingRoot := environment.get? "RENDER_TEMP_DIR"
    canvas :=
      { width := sizeOf environment "RENDER_CANVAS_WIDTH" standard.canvas.width
        height := sizeOf environment "RENDER_CANVAS_HEIGHT" standard.canvas.height
        frameRate := sizeOf environment "RENDER_FPS" standard.canvas.frameRate }
    encoding := encodingOf environment standard.encoding }

end Settings

def temporaryDirectory : String := "/tmp"

end Montage.Render
