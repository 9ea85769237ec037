import ApiPages.CommandLine.Basic

/-!
# The program

The command line on the disk of the machine.
-/

namespace ApiPages

/-- A file operation of the machine, with its errors as faults. -/
def onDisk {α : Type} (operation : IO α) : IO (Except FileFault α) := do
  match ← operation.toBaseIO with
  | .ok a => return .ok a
  | .error e => return .error (.other (toString e))

/-- The disk of the machine. -/
def disk : FileSystem IO where
  workingDir := do return toString (← IO.currentDir)
  pathExists path := do
    match ← onDisk (IO.FS.Handle.mk path IO.FS.Mode.read) with
    | .ok _ => return true
    | .error _ => return false
  readText path := onDisk (IO.FS.readFile path)
  removeFile path := onDisk (IO.FS.removeFile path)
  createDirs path := onDisk (if path.isEmpty then pure () else IO.FS.createDirAll path)
  writeText path text := onDisk (IO.FS.writeFile path text)

end ApiPages

/-- Runs the program on its arguments. -/
def main (args : List String) : IO UInt32 := do
  let outcome ← ApiPages.execute ApiPages.disk args
  IO.print outcome.output
  return UInt32.ofNat outcome.exitCode
