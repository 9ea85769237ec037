import ApiPages.Diagnostics.Finding
import ApiPages.Dict
import ApiPages.ModuleWalk

/-!
# Re-exports

A module may offer names that are declared elsewhere: one by one, or everything public of another
module. The map of re-exports sends the offered path to the path that it stands for, as long as that
lies inside the project. It is not flattened: a target may be a re-export itself.

* `Reexport` — what one re-export amounts to: a binding, or a fault.
* `Reexport.ofNode` — the bindings of a re-export of a module.
* `ReexportMap.build` — the map of a snapshot, within a depth limit.
-/

namespace ApiPages

/-- Offered paths and what they stand for. -/
abbrev ReexportMap := Dict String

/-- What a re-export amounts to. -/
inductive Reexport where
  /-- The path stands for the target. -/
  | binding (path target : String)
  /-- The re-export at the path has no usable target. -/
  | fault (path : String)
deriving DecidableEq, Repr

namespace Reexport

/-- The description of a re-export without a usable target. -/
def unresolved : String := "alias target could not be resolved"

/-- What a public member of a module stands for when everything of the module is re-exported. -/
def memberTarget? (root : String) (member : Node) : Option String :=
  match member.info.kind with
  | .reexport _ true => none
  | .reexport target false => target.filter fun t => DottedPath.isInternal root t
  | _ => some member.path

/-- The member is offered by a re-export of everything: it is public and no module. -/
def isOffered (member : Node) : Bool := member.name.toList.head? != some '_' && !member.isModule

/-- The bindings of the public members of `source` in the module at `path`. -/
def ofMembers (root path : String) (source : Node) : List Reexport :=
  (source.children.filter isOffered).filterMap fun m =>
    (memberTarget? root m).map fun t => binding (DottedPath.child path m.name) t

/-- What a member of a module re-exports. -/
def ofNode (s : Snapshot) (module member : Node) : List Reexport :=
  match member.info.kind with
  | .reexport none _ => [fault member.path]
  | .reexport (some target) wildcard =>
    if !DottedPath.isInternal s.rootName target then []
    else if wildcard then
      match (s.find? target).filter Node.isModule with
      | some source => ofMembers s.rootName module.path source
      | none => [fault member.path]
    else [binding (DottedPath.child module.path member.name) target]
  | _ => []

/-- What the members of the modules of a walk re-export, in order. -/
def ofWalk (s : Snapshot) (walk : List Visit) : List Reexport :=
  walk.flatMap fun v => v.module.children.flatMap (ofNode s v.module)

/-- The entry of a binding. -/
def entry? : Reexport → Option (String × String)
  | binding path target => some (path, target)
  | fault _ => none

/-- The finding of a fault. -/
def finding? : Reexport → Option Finding
  | binding _ _ => none
  | fault path => some (.error path unresolved)

end Reexport

namespace ReexportMap

/-- The map of a snapshot; a module below the depth limit ends the run. -/
def build (s : Snapshot) (limit : Nat) : Except Failure (Noted ReexportMap) :=
  (Visit.guard limit s.modules).map fun walk =>
    let rs := Reexport.ofWalk s walk
    ⟨Dict.ofList (rs.filterMap Reexport.entry?), rs.filterMap Reexport.finding?⟩

/-- The map as JSON. -/
def toJson (m : ReexportMap) : Json := .obj (m.entries.map fun e => (e.1, .str e.2))

end ReexportMap

end ApiPages
