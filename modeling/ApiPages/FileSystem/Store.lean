import ApiPages.FileSystem.Basic
import ApiPages.UnixPath

/-!
# Stores

A file system in memory: directories and files by their place, which is the list of names from the
root. Paths are resolved name by name; `..` leads to the directory above.

* `Store` — directories, files and the working directory.
* `Store.locate` — the place of a path.
* `Store.fileSystem` — the operations on a store.
* `Store.listing` — the files below the working directory.
-/

namespace ApiPages

/-- Directories and files in memory. -/
structure Store where
  /-- The places of the directories; the root is always one. -/
  dirs : List (List String)
  /-- The files by place. -/
  files : List (List String × String)
  /-- The place of the working directory. -/
  workingDir : List String

namespace Store

/-- A store with nothing but an empty working directory. -/
def empty : Store := ⟨[["work"]], [], ["work"]⟩

/-- The place is a directory. -/
def isDir (s : Store) (place : List String) : Bool := place.isEmpty || s.dirs.contains place

/-- The text of the file at a place. -/
def file? (s : Store) (place : List String) : Option String :=
  (s.files.find? fun f => f.1 == place).map Prod.snd

/-- How long a name may be, in bytes. -/
def nameLimit : Nat := 255

/-- How long a path may be, in bytes. -/
def pathLimit : Nat := 4096

/-- Where a path leads: the place, and whether the path insists on a directory by a final slash. -/
structure Location where
  place : List String
  slash : Bool
deriving DecidableEq, Repr

/-- Follows the segments of a path from a directory. All but the last have to lead to
directories. -/
def follow (s : Store) (dir : List String) : List String → Except FileFault Location
  | [] => .ok ⟨dir, false⟩
  | name :: rest =>
    if name.isEmpty || name == "." then s.follow dir rest
    else if name == ".." then s.follow dir.dropLast rest
    else if nameLimit < name.utf8ByteSize then .error .nameTooLong
    else
      let place := dir ++ [name]
      if s.isDir place then s.follow place rest
      else if rest.all String.isEmpty then .ok ⟨place, !rest.isEmpty⟩
      else if (s.file? place).isSome then .error .notADirectory
      else .error .notFound

/-- Where a path leads. -/
def locate (s : Store) (path : String) : Except FileFault Location :=
  if path.isEmpty then .error .notFound
  else if path.toList.contains '\x00' then .error .invalidName
  else if pathLimit ≤ path.utf8ByteSize then .error .nameTooLong
  else
    let start := if UnixPath.isAbsolute path then [] else s.workingDir
    s.follow start (Text.splitString '/' path)

/-- The path leads to a directory. -/
def leadsToDir (s : Store) (path : String) : Bool :=
  match s.locate path with
  | .ok l => s.isDir l.place
  | .error _ => false

/-- The path leads to a file or a directory. -/
def leadsSomewhere (s : Store) (path : String) : Bool :=
  match s.locate path with
  | .ok l => s.isDir l.place || ((s.file? l.place).isSome && !l.slash)
  | .error _ => false

/-- The text of a file. -/
def read (s : Store) (path : String) : Except FileFault String := do
  let l ← s.locate path
  if s.isDir l.place then .error .isADirectory
  else
    match s.file? l.place with
    | some text => if l.slash then .error .notADirectory else .ok text
    | none => .error .notFound

/-- The store without a file. -/
def remove (s : Store) (path : String) : Except FileFault Store := do
  let l ← s.locate path
  if s.isDir l.place then .error .isADirectory
  else if (s.file? l.place).isNone then .error .notFound
  else if l.slash then .error .notADirectory
  else .ok { s with files := s.files.filter fun f => f.1 != l.place }

/-- The store with one directory more. -/
def createDir (s : Store) (path : String) : Except FileFault Store := do
  let l ← s.locate path
  if s.isDir l.place || (s.file? l.place).isSome then .error .alreadyExists
  else .ok { s with dirs := s.dirs ++ [l.place] }

/-- Creates a directory after those above it. What was created stays also if it fails later. -/
def createDirsFrom (s : Store) (path : String) : (fuel : Nat) → Except FileFault Unit × Store
  | 0 => (.error .notFound, s)
  | fuel + 1 =>
    if path.isEmpty then (.ok (), s)
    else
      match s.createDir path with
      | .ok s => (.ok (), s)
      | .error .notFound =>
        match UnixPath.parent path with
        | none => (.error .notFound, s)
        | some above =>
          match s.createDirsFrom above fuel with
          | (.error e, s) => (.error e, s)
          | (.ok _, s) =>
            match s.createDir path with
            | .ok s => (.ok (), s)
            | .error e => (if s.leadsToDir path then .ok () else .error e, s)
      | .error e => (if s.leadsToDir path then .ok () else .error e, s)

/-- Creates a directory and those above it. -/
def createDirs (s : Store) (path : String) : Except FileFault Unit × Store :=
  s.createDirsFrom path (path.length + 1)

/-- The store with the text of a file written. -/
def write (s : Store) (path text : String) : Except FileFault Store := do
  let l ← s.locate path
  if s.isDir l.place then .error .isADirectory
  else if (s.file? l.place).isSome then
    if l.slash then .error .notADirectory
    else .ok { s with files := s.files.map fun f => if f.1 == l.place then (l.place, text) else f }
  else if l.slash then .error .isADirectory
  else .ok { s with files := s.files ++ [(l.place, text)] }

/-- Replaces the store by the result of an operation; a failed one leaves it as it is. -/
def update (change : Store → Except FileFault Store) : StateM Store (Except FileFault Unit) :=
  fun s =>
    match change s with
    | .ok s => (.ok (), s)
    | .error e => (.error e, s)

/-- The operations on a store. Its working directory is where its paths start. -/
def fileSystem : FileSystem (StateM Store) where
  workingDir := pure ""
  pathExists path := fun s => (s.leadsSomewhere path, s)
  readText path := fun s => (s.read path, s)
  removeFile path := update fun s => s.remove path
  createDirs path := fun s => s.createDirs path
  writeText path text := update fun s => s.write path text

/-- The files below the working directory, by their paths from there. -/
def listing (s : Store) : List (String × String) :=
  s.files.filterMap fun f =>
    if s.workingDir.isPrefixOf f.1 then
      some (Text.joinStrings "/" (f.1.drop s.workingDir.length), f.2)
    else none

end Store

end ApiPages
