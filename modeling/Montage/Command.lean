import Montage.Encoding
import Montage.Filter.Plan

/-! The command that runs the engine, and its text as it would be typed in a shell. -/

namespace Montage

/-- A command: a program, its input files, the arguments after them, and the output file. -/
structure Command where
  program : String
  inputs : List String := []
  arguments : List String := []
  output : String
  deriving DecidableEq

def Shell.isPlain (c : Char) : Bool :=
  c.isAlphanum || "-_./:=+,@%".toList.contains c

/-- A word as typed in a shell: as it is if all its characters are plain, and otherwise between
single quotes, with each quote inside escaped outside of them. -/
def Shell.word (text : String) : String :=
  if !text.isEmpty && text.toList.all isPlain then text
  else
    String.ofList ('\'' :: (text.toList.flatMap (fun c => if c = '\'' then "'\\''".toList else [c]) ++
      ['\'']))

namespace Command

def addInput (command : Command) (path : String) : Command :=
  { command with inputs := command.inputs ++ [path] }

def addArguments (command : Command) (arguments : List String) : Command :=
  { command with arguments := command.arguments ++ arguments }

def filterVideo (command : Command) (filter : String) : Command :=
  command.addArguments ["-vf", filter]

def filterGraph (command : Command) (graph : String) : Command :=
  command.addArguments ["-filter_complex", graph]

/-- Takes a stream or a label of the graph to the output. -/
def take (command : Command) (stream : String) : Command :=
  command.addArguments ["-map", stream]

/-- All arguments. The output comes last, and an existing one is overwritten. -/
def allArguments (command : Command) : List String :=
  "-y" :: command.inputs.flatMap (fun path => ["-i", path]) ++ command.arguments ++ [command.output]

/-- The command as it would be typed in a shell. -/
def line (command : Command) : String :=
  " ".intercalate ((command.program :: command.allArguments).map Shell.word)

/-- The files that a render reads, in the order of its inputs. -/
structure Inputs where
  source : String
  clips : List String := []
  overlay : Option String := none
  deriving DecidableEq

def Inputs.paths (inputs : Inputs) : List String :=
  inputs.source :: inputs.clips ++ inputs.overlay.toList

/-- The command for compiled filters. Without a sound of its own a graph passes on that of the
source, if there is any. -/
def assemble (program : String) (inputs : Inputs) (compiled : Filter.Compiled) (encoding : Encoding)
    (output : String) : Except Filter.GraphFault Command :=
  compiled.argument.map fun argument =>
    let bare : Command := { program, inputs := inputs.paths, output }
    let filtered := match compiled with
      | .simple _ => bare.filterVideo argument
      | .complex _ hasSound =>
        ((bare.filterGraph argument).take (Filter.bracketed Filter.videoOutput)).take
          (if hasSound then Filter.bracketed Filter.soundOutput else "0:a?")
    filtered.addArguments encoding.arguments

end Command

end Montage
