import ApiPages.Project

/-!
# Resolving references

A canonical path is resolved to a link. Paths inside the project are looked up in the symbol table,
and re-exports are followed a bounded number of times; other paths have the links of the settings.

* `Project.navigationOf` — the navigation path of a path inside the project.
* `Project.resolve` — the link of a path, or a finding.
-/

namespace ApiPages.Project

/-- The path lies inside the project. -/
def isInternal (p : Project) (path : String) : Bool := DottedPath.isInternal p.rootName path

/-- The symbol at a canonical path. -/
def symbolAt (p : Project) (path : String) : Option SymbolRef :=
  p.symbols.get? (DottedPath.relativeTo p.rootName path)

/-- The navigation path of a path after at most `hops` re-exports. -/
def follow (p : Project) (path : String) : (hops : Nat) → Option String
  | 0 => (p.symbolAt path).map SymbolRef.navigation
  | hops + 1 =>
    match p.symbolAt path with
    | some s => some s.navigation
    | none =>
      match p.reexports.get? path with
      | some target => p.follow target hops
      | none => none

/-- The navigation path of a canonical path. -/
def navigationOf (p : Project) (path : String) : Option String := p.follow path p.maxDepth

/-- The link of a navigation path. -/
def navigationLink (p : Project) (navigation : String) : String :=
  "@nav" ++ p.linkBase ++ "/" ++ navigation

/-- The link of a canonical path; a path without one is a finding. -/
def resolve (p : Project) (path : String) : Noted (Option String) :=
  if p.isInternal path then
    match p.navigationOf path with
    | some navigation => pure (some (p.navigationLink navigation))
    | none => Noted.found none (.internalReference path)
  else
    match p.externalLinks.get? path with
    | some url => pure (some url)
    | none => Noted.found none (.externalReference path)

end ApiPages.Project
