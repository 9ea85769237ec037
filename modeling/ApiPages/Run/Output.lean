import ApiPages.DottedPath
import ApiPages.Failure
import ApiPages.FileSystem.Basic
import ApiPages.UnixPath

/-!
# Writing pages

* `pagePath` — the file of the page of a module: the segments of its path are directories, the last
  one is the file.
* `FileSystem.replaceFile` — writes a file in the place of an older one.
-/

namespace ApiPages

/-- The file of the page of the module at a canonical path. -/
def pagePath (out path : String) : String :=
  UnixPath.setExtension ((DottedPath.segments path).foldl UnixPath.push out) "json"

namespace FileSystem

variable {m : Type → Type} [Monad m]

/-- A file operation whose fault is a failure at a path. -/
def attempt {α : Type} (path : String) (operation : m (Except FileFault α)) : ExceptT Failure m α :=
  ExceptT.mk do
    match ← operation with
    | .ok a => return .ok a
    | .error e => return .error (.file path e.message)

/-- Writes a file. An older one is removed first, and missing directories are created. -/
def replaceFile (fs : FileSystem m) (path text : String) : ExceptT Failure m Unit := do
  if ← fs.pathExists path then
    attempt path (fs.removeFile path)
  match UnixPath.parent path with
  | some dir => attempt dir (fs.createDirs dir)
  | none => pure ()
  attempt path (fs.writeText path text)

end FileSystem

end ApiPages
