import Montage.Instant.Reading
import Montage.Json.Record

/-! The records of a store: projects, and the files that were uploaded for them. -/

namespace Montage

/-- A project, which owns uploaded files and what is rendered of them. -/
structure Project where
  id : String
  name : String := ""
  created : Option Instant := none
  deriving DecidableEq

/-- What is known of an uploaded file besides its content. -/
structure FileRecord where
  id : String
  /-- The name under which the file was uploaded. -/
  name : String
  contentType : String
  /-- The path of the content; below the root of the store unless it is absolute. -/
  location : String
  size : UInt64 := 0
  deriving DecidableEq

open Json (Reader Record)

namespace Project

def record : Record Project :=
  Project.mk
    <$> Record.required "id" [] Reader.text
    <*> Record.defaulting "name" [] Reader.text ""
    <*> Record.defaulting "created_at" [] (Reader.optional Instant.read) none

def read : Reader Project :=
  record.reader "Project"

/-- The JSON form of a project. A time that is not known is left off. -/
def toJson (project : Project) : Json :=
  .ofMembers
    ([("id", .ofText project.id), ("name", .ofText project.name)] ++
      project.created.toList.map fun created => ("created_at", created.toJson))

end Project

namespace FileRecord

def record : Record FileRecord :=
  FileRecord.mk
    <$> Record.required "id" [] Reader.text
    <*> Record.required "filename" [] Reader.text
    <*> Record.required "content_type" [] Reader.text
    <*> Record.required "storage_path" [] Reader.text
    <*> Record.defaulting "size" [] (Reader.word64 "u64") 0

def read : Reader FileRecord :=
  record.reader "FileRecord"

def toJson (file : FileRecord) : Json :=
  .ofMembers
    [("id", .ofText file.id), ("filename", .ofText file.name),
      ("content_type", .ofText file.contentType), ("storage_path", .ofText file.location),
      ("size", .ofNat file.size.toNat)]

end FileRecord

end Montage
