import NominalGenerics.CommandLine.Run

/-!
# The command line

`check FILE` and `describe TYPE`, with files read from the disk.
-/

open NominalGenerics

/-- Read a file of the disk as a document. Text that is not Unicode is no document. -/
def readDisk (path : String) : IO (Except FileError (Option Yaml.Node)) := do
  match ← (IO.FS.readBinFile path).toBaseIO with
  | .ok bytes => return .ok ((String.fromUTF8? bytes) >>= Yaml.read)
  | .error (.noFileOrDirectory ..) => return .error .missing
  | .error (.inappropriateType ..) => return .error .isDirectory
  | .error _ => return .error .missing

def main (args : List String) : IO UInt32 := do
  let (command, args) ←
    match args with
    | "check" :: args => pure (CommandLine.Command.check, args)
    | "describe" :: args => pure (CommandLine.Command.describe, args)
    | _ =>
      IO.eprintln "usage: check FILE | describe TYPE"
      return 1
  let directory ← IO.currentDir
  let outcome ← CommandLine.run ⟨directory.toString, readDisk⟩ command args
  IO.print outcome.out
  match outcome.error with
  | none => return 0
  | some message =>
    IO.eprintln ("Error: " ++ message)
    return 1
