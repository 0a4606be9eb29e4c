import Logo.Dictionary

/-!
The directory that the program works in, as far as it can be told from the outside: files
by name, and no directories of its own. Paths may lead through the directories around it, of
which nothing else is known.
-/
namespace Logo.CommandLine

inductive FileError where
  | noSuchFile
  | notADirectory
  | isADirectory
  | nameTooLong
  | notText
deriving DecidableEq, Repr

def FileError.message : FileError → String
  | noSuchFile => "No such file or directory (os error 2)"
  | notADirectory => "Not a directory (os error 20)"
  | isADirectory => "Is a directory (os error 21)"
  | nameTooLong => "File name too long (os error 36)"
  | notText => "stream did not contain valid UTF-8"

structure Directory where
  files : Dictionary ByteArray := {}

/-- A directory on the way of a path: the one that the program works in, or another. -/
inductive Place where
  | here
  | outside
deriving DecidableEq, Repr

/-- What a path leads to: a directory, or a name in a directory, which need not be there. A
slash behind the name asks for a directory. -/
inductive Target where
  | directory
  | entry (place : Place) (name : String) (slashed : Bool)
deriving DecidableEq, Repr

namespace Directory

/-- The longest name of a file, in bytes. -/
def maxName : Nat := 255

/-- The longest path, in bytes. -/
def maxPath : Nat := 4095

/-- The contents of the file of this name. Outside no file can be seen. -/
def find (directory : Directory) (place : Place) (name : String) :
    Except FileError (Option ByteArray) :=
  if maxName < name.utf8ByteSize then .error .nameTooLong
  else
    match place with
    | .here => .ok (directory.files.get? name)
    | .outside => .ok none

/-- The directory that a step leads to from another. -/
def enter (directory : Directory) (place : Place) (step : String) : Except FileError Place :=
  if step = "." then .ok place
  else if step = ".." then .ok .outside
  else do
    match ← directory.find place step with
    | some _ => throw .notADirectory
    | none => throw .noSuchFile

/-- The names between the slashes of a path. Several slashes count as one. -/
def steps (path : String) : List String := (path.splitOn "/").filter (· != "")

def start (path : String) : Place := if path.toList.head? == some '/' then .outside else .here

def locate (directory : Directory) (path : String) : Except FileError Target := do
  if path.isEmpty then throw .noSuchFile
  if maxPath < path.utf8ByteSize then throw .nameTooLong
  match (steps path).getLast? with
  | none => return .directory
  | some last =>
    let place ← (steps path).dropLast.foldlM directory.enter (start path)
    if last = "." ∨ last = ".." then return .directory
    return .entry place last (path.toList.getLast? == some '/')

def read (directory : Directory) (path : String) : Except FileError ByteArray := do
  match ← directory.locate path with
  | .directory => throw .isADirectory
  | .entry place name slashed =>
    match ← directory.find place name with
    | none => throw .noSuchFile
    | some contents => if slashed then throw .notADirectory else return contents

def readText (directory : Directory) (path : String) : Except FileError String := do
  match String.fromUTF8? (← directory.read path) with
  | some text => return text
  | none => throw .notText

/-- Replaces the contents of the file, or makes it. Files outside leave no trace here. -/
def write (directory : Directory) (path text : String) : Except FileError Directory := do
  match ← directory.locate path with
  | .directory | .entry _ _ true => throw .isADirectory
  | .entry place name false =>
    let _ ← directory.find place name
    match place with
    | .here => return ⟨directory.files.insert name text.toUTF8⟩
    | .outside => return directory

end Directory

end Logo.CommandLine
