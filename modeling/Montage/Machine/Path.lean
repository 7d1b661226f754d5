import Montage.Text.Pieces

/-! Paths as texts: components between slashes. Empty components and single dots mean nothing. -/

namespace Montage.Path

/-- A path below another one; an absolute path stays what it is. -/
def join (directory path : String) : String :=
  if path.startsWith "/" then path
  else if directory.isEmpty || directory.endsWith "/" then directory ++ path
  else directory ++ "/" ++ path

def parts (path : String) : List String :=
  (Text.pieces (· = '/') path.toList).map String.ofList

def components (path : String) : List String :=
  (parts path).filter fun part => part ≠ "" ∧ part ≠ "."

/-- The last component, unless it leads upwards. -/
def fileName (path : String) : Option String :=
  match (components path).getLast? with
  | some ".." | none => none
  | some name => some name

/-- A file name cut at its last dot. A dot at the start does not count, and neither does `..`. -/
def cutExtension (name : List Char) : List Char × Option (List Char) :=
  let extension := (name.reverse.takeWhile (· ≠ '.')).reverse
  let rest := name.length - extension.length
  if name = ['.', '.'] ∨ rest ≤ 1 then (name, none)
  else (name.take (rest - 1), some extension)

def stem (path : String) : Option String :=
  (fileName path).map fun name => String.ofList (cutExtension name.toList).1

def extension (path : String) : Option String :=
  (fileName path).bind fun name => (cutExtension name.toList).2.map String.ofList

/-- The directory that a file is in: the path without its last component. -/
def parent (path : String) : String :=
  String.ofList ((path.toList.reverse.dropWhile (· ≠ '/')).drop 1).reverse

end Montage.Path
