import WorldShuffle.Table

namespace WorldShuffle

/-- The files of a directory, under their paths as lists of names. Paths that leave it begin with
double dots. -/
structure Directory where
  files : Table (List String) String := {}

inductive PathError
  | notFound
  | notDirectory
  | isDirectory
  | nameTooLong
  deriving DecidableEq

def PathError.message : PathError → String
  | .notFound => "No such file or directory (os error 2)"
  | .notDirectory => "Not a directory (os error 20)"
  | .isDirectory => "Is a directory (os error 21)"
  | .nameTooLong => "File name too long (os error 36)"

def maxNameBytes : Nat := 255

def maxPathBytes : Nat := 4095

namespace Directory

variable (d : Directory)

def isAbove (path : List String) : Bool := path.all (· = "..")

def isFolder (path : List String) : Bool :=
  isAbove path || d.files.keys.any fun file => path.isPrefixOf file && path.length < file.length

/-- Follows the names of a relative path from a folder; the last one is where it ends. A name is
looked at only where the folder before it is known to be one. -/
def walk (folder : List String) : List String → Except PathError (List String)
  | [] => .ok folder
  | name :: names =>
    if d.files.has folder then .error .notDirectory
    else if !d.isFolder folder then .error .notFound
    else if maxNameBytes < name.utf8ByteSize then .error .nameTooLong
    else if name = "" ∨ name = "." then walk folder names
    else if name = ".." then walk (if isAbove folder then folder ++ [name] else folder.dropLast) names
    else walk (folder ++ [name]) names

def ofList (files : List (String × String)) : Directory :=
  ⟨files.foldl (fun t (path, text) => t.set (path.splitOn "/") text) {}⟩

def checkLength (path : String) : Except PathError Unit :=
  if maxPathBytes < path.utf8ByteSize then .error .nameTooLong else .ok ()

def read (path : String) : Option String :=
  match checkLength path *> d.walk [] (path.splitOn "/") with
  | .ok place => d.files.get? place
  | .error _ => none

/-- Writes a file into a folder that exists, in the place of an old one if there is one. A path with
a slash at its end is none of a file, and its last name is not even looked at. -/
def write (path text : String) : Except PathError Directory := do
  checkLength path
  let names := (path.splitOn "/").filter (· ≠ "")
  if path.endsWith "/" then
    let _ ← d.walk [] (names.dropLast ++ ["."])
    throw .isDirectory
  let place ← d.walk [] names
  if d.isFolder place then throw .isDirectory
  return ⟨d.files.set place text⟩

end Directory

end WorldShuffle
