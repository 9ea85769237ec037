import ApiPages.Dict
import ApiPages.Text.Lines

/-!
# Settings of a run

* `Settings` — where pages go, how links start, which outside links exist, how deep modules may
  nest.
* `Overrides`, `Settings.override` — what the command line changes.
* `Settings.linkBase` — the normal form of the start of links.
* `parseExternalLink` — an outside link written as `NAME=URL`.
-/

namespace ApiPages

/-- The settings of a run. -/
structure Settings where
  /-- What navigation links start with. -/
  baseNav : String
  /-- The directory of the pages. -/
  out : String
  /-- Links of paths outside the project. -/
  externalLinks : Dict String
  /-- Links of the standard library are included. -/
  useStandardLinks : Bool
  /-- How deep modules may nest. -/
  maxDepth : Nat
deriving DecidableEq

/-- What the command line changes; what is not given stays. -/
structure Overrides where
  baseNav : Option String
  out : Option String
  /-- Links to add, in order. -/
  externalLinks : List (String × String)
  /-- Links of the standard library are left out. -/
  noStandardLinks : Bool
  maxDepth : Option Nat
deriving DecidableEq, Repr

namespace Overrides

/-- Nothing is changed. -/
def none : Overrides := ⟨.none, .none, [], false, .none⟩

end Overrides

namespace Settings

/-- The settings of a run that says nothing else. -/
def standard : Settings := ⟨"/api", "assets/api", ∅, true, 10⟩

/-- The settings with the changes of the command line. -/
def override (s : Settings) (o : Overrides) : Settings where
  baseNav := o.baseNav.getD s.baseNav
  out := o.out.getD s.out
  externalLinks := s.externalLinks.insertAll o.externalLinks
  useStandardLinks := s.useStandardLinks && !o.noStandardLinks
  maxDepth := o.maxDepth.getD s.maxDepth

/-- The start of links with one slash in front and none behind, or nothing at all. -/
def linkBase (s : Settings) : String :=
  let isSlash : Char → Bool := fun c => c == '/'
  let inner := Text.dropEndWhile isSlash ((Text.trim s.baseNav.toList).dropWhile isSlash)
  if inner = [] then "" else String.ofList ('/' :: inner)

end Settings

/-- A name and a link from the text `NAME=URL`; neither may be blank. -/
def parseExternalLink (text : String) : Except String (String × String) :=
  let refused :=
    "invalid external link '" ++ text
      ++ "', expected 'NAME=URL' (e.g., 'numpy.ndarray=https://...')"
  match Text.splitFirst '=' text.toList with
  | some (name, url) =>
    if Text.isBlankLine name || Text.isBlankLine url then .error refused
    else .ok (String.ofList (Text.trim name), String.ofList (Text.trim url))
  | none => .error refused

end ApiPages
