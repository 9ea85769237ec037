import ApiPages.Text.Lines

/-!
# Unix file paths

Paths are texts. Repeated slashes, a trailing slash and the segment `.` other than in front count
for nothing, except that `push` and `setExtension` keep the text in front of what they change.

* `UnixPath.components` — the meaning of a path.
* `UnixPath.push` — a path below a path; an absolute path replaces everything.
* `UnixPath.fileName`, `UnixPath.parent`, `UnixPath.setExtension` — the last component, the path
  without it, and the path with another extension.
* `UnixPath.relativeTo` — the components of a path below a directory.
-/

namespace ApiPages.UnixPath

/-- A component of a path. -/
inductive Component where
  | root
  | current
  | parent
  | normal (name : List Char)
deriving DecidableEq, Repr

/-- The text of a component. -/
def Component.text : Component → List Char
  | root => ['/']
  | current => ['.']
  | parent => ['.', '.']
  | normal name => name

/-- The path starts at the root. -/
def isAbsolute (path : String) : Bool := path.toList.head? == some '/'

/-- A segment that counts for nothing. -/
def isIdle (segment : List Char) : Bool := segment == [] || segment == ['.']

/-- The component of a segment that counts. -/
def ofSegment (segment : List Char) : Component :=
  if segment = ['.'] then .current else if segment = ['.', '.'] then .parent else .normal segment

/-- The texts between slashes, without the slash that an absolute path starts with. -/
def segments (path : String) : List (List Char) :=
  match path.toList with
  | '/' :: s => Text.splitOn '/' s
  | s => Text.splitOn '/' s

/-- The components of a path. -/
def components (path : String) : List Component :=
  if isAbsolute path then
    .root :: ((segments path).filter fun s => !isIdle s).map ofSegment
  else
    match segments path with
    | [] => []
    | first :: rest =>
      (if first = [] then [] else [ofSegment first])
        ++ ((rest.filter fun s => !isIdle s).map ofSegment)

/-- The path without slashes and idle segments at its end, as segments. An absolute path may have
none left; a relative one keeps its first segment unless that is empty. -/
def significant (path : String) : List (List Char) :=
  if isAbsolute path then Text.dropEndWhile isIdle (segments path)
  else
    match segments path with
    | [] => []
    | first :: rest => if first = [] then [] else first :: Text.dropEndWhile isIdle rest

/-- The text of segments, absolute or not. -/
def ofSegments (absolute : Bool) (ss : List (List Char)) : String :=
  String.ofList ((if absolute then ['/'] else []) ++ Text.joinWith ['/'] ss)

/-- The last component, if it is a name. -/
def fileName (path : String) : Option (List Char) :=
  match (significant path).getLast? with
  | none => none
  | some s => if s = ['.'] || s = ['.', '.'] then none else some s

/-- Drops idle segments at the end; the first segment of a relative path stays. -/
def dropIdleEnd (absolute : Bool) (ss : List (List Char)) : List (List Char) :=
  if absolute then Text.dropEndWhile isIdle ss
  else
    match ss with
    | [] => []
    | first :: rest => first :: Text.dropEndWhile isIdle rest

/-- The path without its last component; the root and the empty path have none. -/
def parent (path : String) : Option String :=
  let ss := significant path
  if ss = [] then none
  else some (ofSegments (isAbsolute path) (dropIdleEnd (isAbsolute path) ss.dropLast))

/-- A path below a path. -/
def push (path extra : String) : String :=
  if isAbsolute extra then extra
  else if path.isEmpty || path.toList.getLast? == some '/' then path ++ extra
  else path ++ "/" ++ extra

/-- A file name without what follows its last dot, unless that dot comes first. -/
def stem (name : List Char) : List Char :=
  match Text.splitLast '.' name with
  | some ([], _) => name
  | some (before, _) => before
  | none => name

/-- The path with another extension; a path without file name stays as it is. -/
def setExtension (path extension : String) : String :=
  match fileName path with
  | none => path
  | some name =>
    let file := stem name ++ '.' :: extension.toList
    ofSegments (isAbsolute path) ((significant path).dropLast ++ [file])

/-- The components joined by slashes. -/
def joinComponents (cs : List Component) : String :=
  String.ofList (Text.joinWith ['/'] (cs.map Component.text))

/-- The components of `path` below `dir`, or all of them if it lies elsewhere, joined by slashes. -/
def relativeTo (dir : Option String) (path : String) : String :=
  let cs := components path
  match dir with
  | none => joinComponents cs
  | some d =>
    let ds := components d
    if ds.isPrefixOf cs then joinComponents (cs.drop ds.length) else joinComponents cs

end ApiPages.UnixPath
