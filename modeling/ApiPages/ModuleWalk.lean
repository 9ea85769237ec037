import ApiPages.Contents
import ApiPages.Snapshot.Basic

/-!
# Walking the modules of a snapshot

A walk visits a module and then, one after the other, the modules among its members, and so on down.

* `Visit` — a module and how many steps below the root it lies.
* `Snapshot.pages` — the walk over documented packages, which is the order of the pages.
* `Snapshot.modules` — the walk over all modules.
* `Visit.tooDeep?` — the first module of a walk below a depth limit.
-/

namespace ApiPages

/-- A module of a walk. -/
structure Visit where
  /-- The number of steps from the root. -/
  depth : Nat
  module : Node

namespace Node

mutual

/-- The walk from a module at a depth, through the members that `keep` selects. -/
def walkFrom (keep : Node → Bool) (depth : Nat) : Node → List Visit
  | .mk i cs => ⟨depth, .mk i cs⟩ :: walkMembers keep (depth + 1) cs

/-- The walks from the selected members of a module. -/
def walkMembers (keep : Node → Bool) (depth : Nat) : List Node → List Visit
  | [] => []
  | c :: cs => (if keep c then c.walkFrom keep depth else []) ++ walkMembers keep depth cs

end

end Node

namespace Snapshot

/-- The root and the documented packages below it that are reached through documented packages. -/
def pages (s : Snapshot) : List Visit := s.root.walkFrom Contents.isDocumentedPackage 0

/-- The root and all modules below it that are reached through modules. -/
def modules (s : Snapshot) : List Visit := s.root.walkFrom Node.isModule 0

end Snapshot

namespace Visit

/-- The first module of a walk that lies below the limit. -/
def tooDeep? (limit : Nat) (walk : List Visit) : Option Visit :=
  walk.find? fun v => decide (limit < v.depth)

/-- The walk, if no module of it lies below the limit. -/
def guard (limit : Nat) (walk : List Visit) : Except Failure (List Visit) :=
  match tooDeep? limit walk with
  | some v => .error (.tooDeep v.module.path limit)
  | none => .ok walk

end Visit

end ApiPages
