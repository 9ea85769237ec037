import ApiPages.Text.Lines

/-!
# Dotted paths

A canonical path is a text of segments separated by dots. The root of a project is one segment, and
paths inside the project start with it.

* `DottedPath.isInternal` — the path is the root or lies below it.
* `DottedPath.relativeTo` — the path without the root in front of it.
* `DottedPath.endsWith` — the path ends with a suffix at a segment boundary.
* `DottedPath.splitMember`, `DottedPath.lastSegment` — the parent and the last segment.
-/

namespace ApiPages.DottedPath

/-- What follows `start` in `path`. -/
def afterRoot (start path : String) : Option (List Char) := Text.afterStart start.toList path.toList

/-- The path is the root or lies below it. -/
def isInternal (root path : String) : Bool :=
  path == root ||
    match afterRoot root path with
    | some ('.' :: _) => true
    | _ => false

/-- The path without `root.` in front; other paths, and the root itself, stay as they are. -/
def relativeTo (root path : String) : String :=
  match afterRoot root path with
  | some ('.' :: rest) => String.ofList rest
  | _ => path

/-- The path ends with the suffix and a segment starts there. Nothing ends with an empty suffix. -/
def endsWith (path suffix : String) : Bool :=
  if suffix.isEmpty then false
  else
    path == suffix ||
      match Text.beforeEnd suffix.toList path.toList with
      | some rest => rest.getLast? == some '.'
      | none => false

/-- The part before the last dot, empty if there is none, and the last segment. -/
def splitMember (path : String) : String × String :=
  match Text.splitLast '.' path.toList with
  | some (parent, leaf) => (String.ofList parent, String.ofList leaf)
  | none => ("", path)

/-- The segment after the last dot. -/
def lastSegment (path : String) : String := (splitMember path).2

/-- A path one segment longer. -/
def child (parent name : String) : String := parent ++ "." ++ name

/-- The segments of a path. -/
def segments (path : String) : List String := Text.splitString '.' path

end ApiPages.DottedPath
