import Montage.Machine.Path

/-! A tree of directories and files. Every operation takes a path as text and finds its place by
walking down from the root; there are no links. -/

namespace Montage

/-- Why an operation on the disk, or starting a program, fails. -/
inductive DiskFault where
  | notFound
  | alreadyExists
  | notDirectory
  | isDirectory
  | nameTooLong
  /-- A path holds the character that ends texts for the system. -/
  | unusablePath
  /-- An argument of a program holds that character. -/
  | unusableArgument
  /-- Every name that was tried is taken. -/
  | noFreeName (name directory : String)
  /-- Any other failure, in words. -/
  | other (message : String)
  deriving DecidableEq, Repr

def DiskFault.message : DiskFault → String
  | notFound => "No such file or directory (os error 2)"
  | alreadyExists => "File exists (os error 17)"
  | notDirectory => "Not a directory (os error 20)"
  | isDirectory => "Is a directory (os error 21)"
  | nameTooLong => "File name too long (os error 36)"
  | unusablePath => "file name contained an unexpected NUL byte"
  | unusableArgument => "nul byte found in provided data"
  | noFreeName name directory => "no free name for " ++ name ++ " in " ++ directory
  | other message => message

inductive Entry where
  | directory
  | file (content : ByteArray)

/-- The entries by their places. The root is always a directory. -/
structure Disk where
  entries : List (List String × Entry) := []

namespace Disk

def at? (disk : Disk) (place : List String) : Option Entry :=
  if place = [] then some .directory else disk.entries.lookup place

def put (disk : Disk) (place : List String) (entry : Entry) : Disk :=
  ⟨(place, entry) :: disk.entries.filter (·.1 ≠ place)⟩

def erase (disk : Disk) (place : List String) : Disk :=
  ⟨disk.entries.filter (·.1 ≠ place)⟩

def names (disk : Disk) (place : List String) : List String :=
  disk.entries.filterMap fun (other, _) =>
    if other.length = place.length + 1 ∧ other.dropLast = place then other.getLast? else none

/-- The longest name of a file, in bytes. -/
def longestName : Nat := 255

/-- The longest path, in bytes. -/
def longestPath : Nat := 4095

/-- Walks down from a place. What is walked through has to be a directory. -/
def walk (disk : Disk) (here : List String) : List String → Except DiskFault (List String)
  | [] => .ok here
  | part :: rest =>
    match disk.at? here with
    | none => .error .notFound
    | some (.file _) => .error .notDirectory
    | some .directory =>
      if part = "" ∨ part = "." then disk.walk here rest
      else if part = ".." then disk.walk here.dropLast rest
      else if longestName < part.utf8ByteSize then .error .nameTooLong
      else disk.walk (here ++ [part]) rest

def unusable (path : String) : Option DiskFault :=
  if path.isEmpty then some .notFound
  else if path.toList.contains '\x00' then some .unusablePath
  else if longestPath < path.utf8ByteSize then some .nameTooLong
  else none

/-- The place of a path; the directory that it is in has to exist. -/
def locate (disk : Disk) (path : String) : Except DiskFault (List String) :=
  match unusable path with
  | some fault => .error fault
  | none => disk.walk [] (Path.parts path)

def find (disk : Disk) (path : String) : Except DiskFault Entry :=
  match disk.locate path with
  | .error fault => .error fault
  | .ok place =>
    match disk.at? place with
    | some entry => .ok entry
    | none => .error .notFound

def read (disk : Disk) (path : String) : Except DiskFault ByteArray :=
  match disk.find path with
  | .error fault => .error fault
  | .ok .directory => .error .isDirectory
  | .ok (.file content) => .ok content

def exists? (disk : Disk) (path : String) : Bool :=
  (disk.find path) matches .ok _

def directorySize : Nat := 4096

def size? (disk : Disk) (path : String) : Option Nat :=
  match disk.find path with
  | .ok (.file content) => some content.size
  | .ok .directory => some directorySize
  | .error _ => none

/-- Writes a file, which may exist already, from its start. -/
def write (disk : Disk) (path : String) (content : ByteArray) : Except DiskFault Disk :=
  match disk.locate path with
  | .error fault => .error fault
  | .ok place =>
    match disk.at? place with
    | some .directory => .error .isDirectory
    | _ => .ok (disk.put place (.file content))

def createNew (disk : Disk) (path : String) : Except DiskFault Disk :=
  match disk.locate path with
  | .error fault => .error fault
  | .ok place =>
    match disk.at? place with
    | some _ => .error .alreadyExists
    | none => .ok (disk.put place (.file .empty))

def append (disk : Disk) (path : String) (content : ByteArray) : Except DiskFault Disk :=
  match disk.locate path with
  | .error fault => .error fault
  | .ok place =>
    match disk.at? place with
    | none => .error .notFound
    | some .directory => .error .isDirectory
    | some (.file before) => .ok (disk.put place (.file (before ++ content)))

def remove (disk : Disk) (path : String) : Except DiskFault Disk :=
  match disk.locate path with
  | .error fault => .error fault
  | .ok place =>
    match disk.at? place with
    | none => .error .notFound
    | some .directory => .error .isDirectory
    | some (.file _) => .ok (disk.erase place)

/-- Removes what is at a path and everything below it. -/
def removeTree (disk : Disk) (path : String) : Disk :=
  match disk.locate path with
  | .error _ => disk
  | .ok place => ⟨disk.entries.filter fun (other, _) => !place.isPrefixOf other⟩

/-- Makes the directories on a way that are not there yet. Those made before a fault stay. -/
def makeWay (disk : Disk) (here : List String) : List String → Disk × Option DiskFault
  | [] => (disk, none)
  | part :: rest =>
    if part = "" ∨ part = "." then disk.makeWay here rest
    else if part = ".." then disk.makeWay here.dropLast rest
    else if longestName < part.utf8ByteSize then (disk, some .nameTooLong)
    else
      match disk.at? (here ++ [part]) with
      | some .directory => disk.makeWay (here ++ [part]) rest
      | some (.file _) =>
        (disk, some (if rest.all (fun part => part = "" ∨ part = ".") then .alreadyExists
          else .notDirectory))
      | none => (disk.put (here ++ [part]) .directory).makeWay (here ++ [part]) rest

/-- Makes a directory and those it is in, as far as they are not there yet. -/
def makeDirectories (disk : Disk) (path : String) : Disk × Option DiskFault :=
  match unusable path with
  | some fault => (disk, if path.isEmpty then none else some fault)
  | none => disk.makeWay [] (Path.parts path)

end Disk

end Montage
