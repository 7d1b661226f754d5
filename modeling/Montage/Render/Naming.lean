import Montage.Instant.Basic
import Montage.Machine.Path
import Montage.Request.Basic
import Montage.Text.Blank

/-! The names of files that a render stages and leaves. -/

namespace Montage.Render

/-- The name of the output that a client asked for: the last component of the path, or nothing if
that is no name. No directory of the client's choice is reached in this way. -/
def requestedName (requested : Option String) : Option String :=
  requested.bind fun path => Path.fileName (String.ofList (Text.trim path.toList))

def defaultName (project : String) (instant : Instant) : String :=
  "rendered_" ++ project ++ "_" ++ instant.stamp ++ ".mp4"

/-- The extension of an uploaded file with its dot, in small letters; nothing if it is empty or has
other than ASCII letters and digits. -/
def extensionSuffix (uploadedName : String) : String :=
  match Path.extension uploadedName with
  | none => ""
  | some extension =>
    let letters := extension.toList
    if letters.isEmpty || !letters.all Char.isAlphanum then ""
    else String.ofList ('.' :: letters.map Char.toLower)

def sourceName (uploadedName : String) : String :=
  "source" ++ extensionSuffix uploadedName

def clipName (index : Nat) (uploadedName : String) : String :=
  "audio_" ++ toString index ++ extensionSuffix uploadedName

def overlayName : String := "overlay.png"

def subtitlesName : String := "subtitles.ass"

/-- The last lines of a text that are not blank. -/
def lastLines (count : Nat) (text : String) : String :=
  let lines := (Text.linesOf text.toList).filter fun line => !(Text.trim line).isEmpty
  "\n".intercalate ((lines.drop (lines.length - count)).map String.ofList)

end Montage.Render
