import NominalGenerics.ClassModel.Decode

/-!
# Files

Documents kept under paths whose names are separated by slashes. A path that others continue is a
directory. Files are read by such paths as they are, or as a disk reads them, with a directory to
start from and detours on the way.
-/

namespace NominalGenerics

inductive FileError where
  | missing
  | isDirectory
  /-- The path goes on behind a file. -/
  | notDirectory
  /-- The path holds a character that no name can hold. -/
  | invalid
  | tooLong
deriving DecidableEq, Repr

namespace FileError

/-- The error as a disk reports it for `path`. -/
def onDisk (path : String) : FileError → String
  | .missing => s!"open {path}: no such file or directory"
  | .isDirectory => s!"read {path}: is a directory"
  | .notDirectory => s!"open {path}: not a directory"
  | .invalid => s!"open {path}: invalid argument"
  | .tooLong => s!"open {path}: file name too long"

/-- The error as a tree in memory reports it for `path`. -/
def inMemory (path : String) : FileError → String
  | .isDirectory => s!"read {path}: invalid argument"
  | _ => s!"open {path}: file does not exist"

end FileError

namespace Path

def names (path : String) : List String := path.splitOn "/"

/-- Whether a name stands for a directory already reached. -/
def isStay (name : String) : Bool := name == "" || name == "."

/-- Whether a path only leads down, through names that each stand for an entry. The dot alone is the
top. -/
def isDescending (path : String) : Bool :=
  path == "." || (names path).all fun name => !isStay name && name != ".."

/-- Names without detours, innermost first. -/
def straighten : List String → List String → List String
  | reached, [] => reached
  | reached, name :: rest =>
    if isStay name then straighten reached rest
    else if name == ".." then straighten reached.tail rest
    else straighten (name :: reached) rest

def isAbsolute (path : String) : Bool := path.toList.head? == some '/'

/-- A path as seen from a directory, without detours. -/
def absolute (directory path : String) : String :=
  let start := if isAbsolute path then [] else names directory
  let slash := if isAbsolute path || isAbsolute directory then "/" else ""
  slash ++ "/".intercalate (straighten [] (start ++ names path)).reverse

/-- The directory of a path without detours. -/
def parent (path : String) : String := "/".intercalate (names path).dropLast

/-- The longest name of an entry, in bytes. -/
def maxName : Nat := 255

/-- The longest path, in bytes. -/
def maxLength : Nat := 4095

end Path

/-- What stands under a path: a file, which may be no document, or a directory. -/
inductive Entry where
  | file (document : Option Yaml.Node)
  | directory

abbrev Files := NameMap Entry

namespace Files

def isDirectory (files : Files) (path : List String) : Bool :=
  match files.get? ("/".intercalate path) with
  | some .directory => true
  | _ =>
    path.isEmpty || files.keys.any fun key =>
      let names := Path.names key
      path.isPrefixOf names && path.length < names.length

def find (files : Files) (path : List String) : Except FileError (Option Yaml.Node) :=
  match files.get? ("/".intercalate path) with
  | some (.file document) => .ok document
  | _ => .error (if files.isDirectory path then .isDirectory else .missing)

/-- Follow a path name by name through directories, as a disk does. Above the top is the top. -/
def follow (files : Files) : List String → List String → Except FileError (List String)
  | reached, [] => .ok reached
  | reached, name :: rest =>
    if !files.isDirectory reached then
      .error (if files.contains ("/".intercalate reached) then .notDirectory else .missing)
    else if Path.isStay name then files.follow reached rest
    else if name == ".." then files.follow reached.dropLast rest
    else if Path.maxName < name.utf8ByteSize then .error .tooLong
    else files.follow (reached ++ [name]) rest

/-- Read a file of a tree that is a disk, from a directory of it. -/
def readFrom (files : Files) (directory path : String) : Except FileError (Option Yaml.Node) :=
  let start := if Path.isAbsolute path then [] else Path.names directory
  if path == "" then .error .missing
  else if path.contains '\x00' then .error .invalid
  else if Path.maxLength < path.utf8ByteSize then .error .tooLong
  else files.follow [] (start ++ Path.names path) >>= files.find

/-- Read a file of a tree. The path may only lead down. -/
def read (files : Files) (path : String) : Except FileError (Option Yaml.Node) :=
  if path == "." then .error .isDirectory
  else if Path.isDescending path then files.find (Path.names path)
  else .error .missing

end Files

namespace Library

/-- Load model files in order. What was loaded before a failure stays. -/
def loadFiles {m : Type → Type} [Monad m] (read : String → m (Except String (Option Yaml.Node))) :
    Library → List String → m (Library × Option ModelError)
  | l, [] => pure (l, none)
  | l, path :: paths => do
    match ← read path with
    | .error reason => return (l, some (.unreadable reason))
    | .ok document =>
      match l.loadDocument path document with
      | .error error => return (l, some error)
      | .ok l => l.loadFiles read paths

def loadTree (l : Library) (files : Files) (paths : List String) : Library × Option ModelError :=
  Id.run <| l.loadFiles (fun path => pure ((files.read path).mapError (·.inMemory path))) paths

end Library

end NominalGenerics
