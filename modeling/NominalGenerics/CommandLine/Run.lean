import NominalGenerics.ClassModel.Files
import NominalGenerics.CommandLine.Help
import NominalGenerics.CoreLibrary
import NominalGenerics.Description
import NominalGenerics.Query

/-!
# Commands

`check` answers the queries of a file and reports each answer. `describe` describes the type an
expression denotes. Both work on the core library and the models named by options. They read files
through a `Disk`, so that they run on a disk as well as on a tree in memory.
-/

namespace NominalGenerics

namespace DescriptionError

def message (h : Hierarchy) : DescriptionError → String
  | .panicked panic => panic.message
  | .failed failure => (Query.Error.failed failure).message h

end DescriptionError

namespace CommandLine

/-- How a command reads files, and where it runs. -/
structure Disk (m : Type → Type) where
  directory : String
  read : String → m (Except FileError (Option Yaml.Node))

structure Outcome where
  out : String
  error : Option String
deriving DecidableEq, Repr

def Disk.ofFiles (directory : String) (files : Files) : Disk Id :=
  ⟨directory, fun path => pure (files.readFrom directory path)⟩

namespace Outcome

def failure (message : String) : Outcome := ⟨"", some message⟩

def answerLine (h : Hierarchy) (a : Query.Answer) : String :=
  match a.error with
  | some error => "FAIL " ++ a.query ++ ": " ++ error.message h ++ "\n"
  | none =>
    if a.mismatch then "FAIL " ++ a.query ++ ": " ++ a.output ++ " (unexpected)\n"
    else "ok   " ++ a.query ++ ": " ++ a.output ++ "\n"

def statsLine (s : CacheStats) : String :=
  "cache: " ++ toString s.entries ++ " entries, " ++ toString s.hits ++ " hits, "
    ++ toString s.misses ++ " misses\n"

def ofAnswers (h : Hierarchy) (answers : List Query.Answer) (stats : Option CacheStats) : Outcome :=
  let failed := (answers.filter (·.failed)).length
  let total := answers.length
  { out := String.join (answers.map (answerLine h)) ++ (stats.map statsLine).getD ""
    error := if failed = 0 then none else some s!"{failed} of {total} queries failed" }

end Outcome

section
variable {m : Type → Type} [Monad m]

/-- The core library with the models named by options. -/
def loadModels (disk : Disk m) (paths : List String) : m (Library × Option ModelError) :=
  Library.core.loadFiles (fun path => do return (← disk.read path).mapError (·.onDisk path)) paths

/-- Load the models of a query file, named as seen from its directory. -/
def loadBeside (disk : Disk m) (directory : String) (l : Library) (paths : List String) :
    m (Library × Option ModelError) :=
  l.loadFiles (fun path => do
    if Path.isDescending path && !path.contains '\x00' then
      return (← disk.read (directory ++ "/" ++ path)).mapError (·.onDisk path)
    else
      return .error s!"readfile {path}: invalid argument") paths

def checkFile (disk : Disk m) (o : Options) (l : Library) (target : String) (file : QueryFile) :
    m Outcome := do
  match ← loadBeside disk (Path.parent target) l file.model with
  | (_, some error) => return .failure error.message
  | (l, none) =>
    let (answers, _, l, e) := Query.runAll l (.ofSettings o.settings) file.queries
    return .ofAnswers l.hierarchy answers (if o.stats then some e.stats else none)

def check (disk : Disk m) (o : Options) (l : Library) (path : String) : m Outcome := do
  let target := Path.absolute disk.directory path
  match ← disk.read target with
  | .error error => return .failure ("could not read queries: " ++ error.onDisk target)
  | .ok document =>
    match document >>= QueryFile.decode with
    | none => return .failure "could not decode queries"
    | some file => checkFile disk o l target file

end

def describe (o : Options) (l : Library) (text : String) : Outcome :=
  match l.readType text with
  | .error error => .failure error.message
  | .ok (t, l) =>
    let listing := l.describe (.ofSettings o.settings) t o.methods
    ⟨listing.text, listing.error.map (·.message l.hierarchy)⟩

def run {m : Type → Type} [Monad m] (disk : Disk m) (command : Command) (args : List String) :
    m Outcome := do
  match Options.parse command args with
  | .error error => return .failure error.message
  | .ok .help => return ⟨command.help, none⟩
  | .ok (.run o argument) =>
    match ← loadModels disk o.models with
    | (_, some error) => return .failure error.message
    | (l, none) =>
      match command with
      | .check => check disk o l argument
      | .describe => return describe o l argument

end CommandLine

end NominalGenerics
