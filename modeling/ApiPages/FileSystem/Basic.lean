/-!
# File systems

What the program needs of a file system. Programs are written against this record, so that they run
on a disk and on a store in memory alike.

* `FileFault` — why a file operation fails, with its text.
* `FileSystem` — the operations, in a monad.
-/

namespace ApiPages

/-- Why a file operation fails. -/
inductive FileFault where
  | notFound
  | notADirectory
  | isADirectory
  | alreadyExists
  | nameTooLong
  | invalidName
  | other (text : String)
deriving DecidableEq, Repr

/-- The text of a fault. -/
def FileFault.message : FileFault → String
  | notFound => "No such file or directory"
  | notADirectory => "Not a directory"
  | isADirectory => "Is a directory"
  | alreadyExists => "File exists"
  | nameTooLong => "File name too long"
  | invalidName => "file name contained an unexpected NUL byte"
  | other text => text

/-- The operations of a file system. -/
structure FileSystem (m : Type → Type) where
  /-- The working directory. -/
  workingDir : m String
  /-- There is a file or a directory at the path. -/
  pathExists : String → m Bool
  /-- The text of a file. -/
  readText : String → m (Except FileFault String)
  /-- Removes a file. -/
  removeFile : String → m (Except FileFault Unit)
  /-- Creates a directory and those above it; it may be there already. -/
  createDirs : String → m (Except FileFault Unit)
  /-- Writes a file. -/
  writeText : String → String → m (Except FileFault Unit)

end ApiPages
