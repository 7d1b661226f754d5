import Montage.Environment
import Montage.Json.Printer
import Montage.Machine.Job
import Montage.Store.Record

/-! Projects and uploaded files on a disk. Below the root of a store lie `projects/id.json` for each
project, and `files/id.json` and `blobs/id` for each file. Identifiers become names of files, so that
those which could lead elsewhere are refused before the disk is touched. -/

namespace Montage

structure Store where
  root : String
  deriving DecidableEq

namespace Store

inductive Fault where
  | invalidKey (id : String)
  /-- A record names a content that is not there. -/
  | missingContent (id location : String)
  | disk (fault : DiskFault)
  | json (fault : Json.Fault)
  deriving DecidableEq

def Fault.message : Fault → String
  | invalidKey id => "Invalid key: " ++ id
  | missingContent id location => "Corrupt record " ++ id ++ ": blob " ++ location ++ " is missing"
  | disk fault => "IO error: " ++ fault.message
  | json .malformed => "JSON error: malformed text"
  | json (.mismatch _ problem) => "JSON error: " ++ problem.message

abbrev Access (α : Type) := ExceptT Fault Job α

def Access.fail (fault : Fault) : Access α :=
  ExceptT.mk (pure (.error fault))

/-- Goes on with a result that may be a fault of the disk. -/
def Access.ofDisk (job : Job (Except DiskFault α)) : Access α :=
  ExceptT.mk (job.bind fun result => pure (result.mapError .disk))

/-- The store that the environment names, or the one in the directory `data`. -/
def ofEnvironment (environment : Environment) : Store :=
  ⟨(environment.get? "DATA_ROOT").getD "data"⟩

def isKeyChar (c : Char) : Bool :=
  c.isAlphanum || c = '-' || c = '_' || c = '.'

def isKey (id : String) : Bool :=
  !id.isEmpty && id ≠ "." && id ≠ ".." && id.toList.all isKeyChar

def recordName (id : String) : String :=
  id ++ ".json"

def projectDirectory (store : Store) : String :=
  Path.join store.root "projects"

def recordDirectory (store : Store) : String :=
  Path.join store.root "files"

def contentDirectory (store : Store) : String :=
  Path.join store.root "blobs"

/-- The location of the content of a file, as its record names it. -/
def contentLocation (id : String) : String :=
  "blobs/" ++ id

def checkKey (id : String) : Access Unit :=
  if isKey id then pure () else Access.fail (.invalidKey id)

/-- Reads a record; there is none if there is no such file. -/
def readRecord (reader : Json.Reader α) (path : String) : Access (Option α) := ExceptT.mk do
  match ← (Job.ask (.read path) : Job (Except DiskFault ByteArray)) with
  | .error .notFound => pure (.ok none)
  | .error fault => pure (.error (.disk fault))
  | .ok content =>
    match Json.decodeBytes reader content with
    | .error fault => pure (.error (.json fault))
    | .ok value => pure (.ok (some value))

/-- Writes a file into a directory, which is made if it is not there yet. -/
def writeInto (directory name : String) (content : ByteArray) : Access Unit := do
  Access.ofDisk (Job.ask (.makeDirectories directory))
  Access.ofDisk (Job.ask (.write (Path.join directory name) content))

/-- Keeps a project, in place of one with the same identifier. -/
def putProject (store : Store) (project : Project) : Access Unit := do
  checkKey project.id
  writeInto store.projectDirectory (recordName project.id) project.toJson.pretty.toUTF8

def getProject (store : Store) (id : String) : Access (Option Project) := do
  checkKey id
  readRecord Project.read (Path.join store.projectDirectory (recordName id))

def fileRecord (id name contentType : String) (content : ByteArray) : FileRecord where
  id := id
  name := name
  contentType := contentType
  location := contentLocation id
  size := .ofNat content.size

/-- Keeps a file, in place of one with the same identifier: first its content, then its record. -/
def putFile (store : Store) (id name contentType : String) (content : ByteArray) :
    Access FileRecord := do
  checkKey id
  writeInto store.contentDirectory id content
  let file := fileRecord id name contentType content
  writeInto store.recordDirectory (recordName id) file.toJson.pretty.toUTF8
  pure file

def getRecord (store : Store) (id : String) : Access (Option FileRecord) := do
  checkKey id
  readRecord FileRecord.read (Path.join store.recordDirectory (recordName id))

structure StoredFile where
  name : String
  contentType : String
  content : ByteArray

/-- The file that a record describes. A record without its content is a fault. -/
def readContent (store : Store) (id : String) (file : FileRecord) : Access StoredFile := ExceptT.mk do
  match ← (Job.ask (.read (Path.join store.root file.location)) : Job (Except DiskFault ByteArray)) with
  | .error .notFound => pure (.error (.missingContent id file.location))
  | .error fault => pure (.error (.disk fault))
  | .ok content => pure (.ok ⟨file.name, file.contentType, content⟩)

def getFile (store : Store) (id : String) : Access (Option StoredFile) := do
  match ← store.getRecord id with
  | none => pure none
  | some file => some <$> store.readContent id file

end Store

end Montage
