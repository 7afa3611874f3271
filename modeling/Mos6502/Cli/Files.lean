import Mos6502.Cli.Path
import Mos6502.IR.Basic

/-!
# Files

What the program can see of the file system: a tree of files below the directory it runs in. A
file is named by the directories on the way to it and its own name; a directory exists if a file
lies below it.

Paths are walked piece by piece. Whatever stands before another piece has to be a directory, also
before a piece that stays where it is. A path can leave the tree, upwards or by starting at the
root. What lies out there is not part of the tree, so of the surroundings only as much is known as
every system has in common, and what is written there leaves the tree as it is.
-/

namespace Mos6502.Cli

/-- What a file holds. -/
inductive Contents where
  | text (s : String)
  /-- Bytes that are no text. -/
  | binary
  /-- The machine code of a module; which bytes these are is the business of the native backend. -/
  | object {m : IR.Module}
deriving DecidableEq

/-- Why a file cannot be read or written. -/
inductive IoError where
  | notFound
  | isDirectory
  | notDirectory
  | nameTooLong
  | notText
  /-- Any other reason, in the words of the system. -/
  | other (reason : String)
deriving DecidableEq

/-- The text of a file error. -/
def IoError.message : IoError → String
  | notFound => "No such file or directory (os error 2)"
  | isDirectory => "Is a directory (os error 21)"
  | notDirectory => "Not a directory (os error 20)"
  | nameTooLong => "File name too long (os error 36)"
  | notText => "stream did not contain valid UTF-8"
  | other reason => reason

/-- A path has fewer bytes than this. -/
def pathLimit : Nat :=
  4096

/-- A name has at most so many bytes. -/
def nameLimit : Nat :=
  255

/-- Where a walk along a path can lead. -/
inductive Place where
  /-- The place below the directory of the tree that has these names on the way to it. -/
  | inside (names : List String)
  /-- The place outside that has these names on the way from the root to it. -/
  | outside (names : List String)
deriving DecidableEq

namespace Place

/-- One directory up. Above the tree is the root, and above the root is the root itself. -/
def parent : Place → Place
  | inside [] => outside []
  | inside names => inside names.dropLast
  | outside names => outside names.dropLast

/-- The place with a name in a directory. -/
def child (name : String) : Place → Place
  | inside names => inside (names ++ [name])
  | outside names => outside (names ++ [name])

end Place

/-- The directories that are found at every root. -/
def rootDirs : List String :=
  ["bin", "dev", "etc", "home", "lib", "opt", "proc", "root", "run", "sbin", "sys", "tmp", "usr",
    "var"]

/-- The device that reads as empty and swallows what is written to it. -/
def nullDevice : List String :=
  ["dev", "null"]

/-- The files below a directory, each with the way to it. -/
structure Files where
  entries : List (List String × Contents) := []
deriving DecidableEq

namespace Files

/-- The contents of the file that has these names on the way to it. -/
def get? (fs : Files) (names : List String) : Option Contents :=
  fs.entries.lookup names

/-- The contents of the file at a place. -/
def contents? (fs : Files) : Place → Option Contents
  | .inside names => fs.get? names
  | .outside names => if names = nullDevice then some (.text "") else none

/-- Is there a directory at the place? -/
def isDir (fs : Files) : Place → Bool
  | .inside names =>
    names.isEmpty || fs.entries.any fun e => names.isPrefixOf e.1 && e.1.length != names.length
  | .outside [] => true
  | .outside [name] => rootDirs.contains name
  | .outside _ => false

/-- Puts a file at a place, in place of the one that is there. -/
def put (fs : Files) (place : Place) (c : Contents) : Files :=
  match place with
  | .outside _ => fs
  | .inside names =>
    if fs.entries.any (fun e => e.1 == names) then
      ⟨fs.entries.map fun e => if e.1 == names then (names, c) else e⟩
    else
      ⟨fs.entries ++ [(names, c)]⟩

/-- Something can only be looked for in a directory. -/
def requireDir (fs : Files) (place : Place) : Except IoError Unit :=
  if fs.isDir place then .ok ()
  else if (fs.contents? place).isSome then .error .notDirectory
  else .error .notFound

/-- Walks along one piece of a path. -/
def follow (fs : Files) (place : Place) (piece : String) : Except IoError Place := do
  fs.requireDir place
  if isStay piece then return place
  else if piece = ".." then return place.parent
  else if nameLimit < piece.utf8ByteSize then throw .nameTooLong
  else return place.child piece

/-- Walks along pieces of a path. -/
def walk (fs : Files) (place : Place) (ps : List String) : Except IoError Place :=
  ps.foldlM fs.follow place

/-- Where the walk along a path starts: at the root if the path starts with a slash, and otherwise
at the top of the tree. -/
def start (path : String) : Except IoError Place :=
  if path = "" then .error .notFound
  else if pathLimit ≤ path.utf8ByteSize then .error .nameTooLong
  else if path.startsWith "/" then .ok (.outside [])
  else .ok (.inside [])

/-- Reads a file. -/
def read (fs : Files) (path : String) : Except IoError String := do
  let place ← fs.walk (← start path) (pieces path)
  if fs.isDir place then throw .isDirectory
  match fs.contents? place with
  | some (.text s) => return s
  | some _ => throw .notText
  | none => throw .notFound

/-- Where a path says that a file is to be put. Its last piece, slashes at its end aside, is the
name of the file. Where it does not name one, or a slash after it says that it is no file, a
directory is meant. -/
def target (fs : Files) (path : String) : Except IoError Place := do
  let top ← start path
  match (pieces path).reverse.dropWhile (· = "") with
  | [] => throw .isDirectory
  | name :: before =>
    let dir ← fs.walk top before.reverse
    fs.requireDir dir
    if isStay name || name = ".." || (pieces path).getLast? = some "" then throw .isDirectory
    let place ← fs.follow dir name
    if fs.isDir place then throw .isDirectory
    return place

/-- Writes a file. -/
def write (fs : Files) (path : String) (c : Contents) : Except IoError Files := do
  return fs.put (← fs.target path) c

end Files

end Mos6502.Cli
