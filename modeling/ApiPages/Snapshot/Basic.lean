import ApiPages.Failure
import ApiPages.Snapshot.Node

/-!
# Snapshots

A snapshot is the tree of nodes of one package. It is loaded from a tree of declarations if the root
is a module, names are well formed and canonical paths are unique.

* `Snapshot` — a loaded tree.
* `LoadFault` — why a tree is refused; of several faults the first one in pre-order counts.
* `Snapshot.load`, `Snapshot.ofJson`, `Snapshot.ofText` — loading.
* `Snapshot.find?` — the node with a canonical path.
* `Snapshot.entries` — the flat listing, with numbers in the place of nesting.
-/

namespace ApiPages

/-- Why a snapshot is refused. -/
inductive LoadFault where
  /-- The document is not JSON or not a declaration. -/
  | malformed
  /-- The outermost declaration is not a module. -/
  | rootNotModule
  /-- A name is empty, or has a dot and is not that of a re-export. -/
  | invalidName (name : String)
  /-- Two nodes have the same path. -/
  | duplicatePath (path : String)
deriving DecidableEq, Repr

/-- The failure of a run on such a snapshot. -/
def LoadFault.failure : LoadFault → Failure
  | malformed => .snapshot "malformed snapshot: not a tree of declarations"
  | rootNotModule => .snapshot "root node must be a module"
  | invalidName name => .snapshot ("invalid node name '" ++ name ++ "'")
  | duplicatePath path => .duplicatePath path

/-- A loaded tree of nodes. -/
structure Snapshot where
  /-- The package itself. -/
  root : Node

namespace Snapshot

/-- The name is fit for a node: it is not empty, and only re-exports may have a dot in it. -/
def nameAllowed (n : Node) : Bool :=
  !n.name.isEmpty && (n.isReexport || !n.name.toList.contains '.')

/-- The first fault of the nodes, given the paths that are taken. -/
def firstFault (taken : List String) : List Node → Option LoadFault
  | [] => none
  | n :: ns =>
    if !nameAllowed n then some (.invalidName n.name)
    else if taken.contains n.path then some (.duplicatePath n.path)
    else firstFault (n.path :: taken) ns

/-- Loads a tree of declarations. -/
def load (d : Declaration) : Except LoadFault Snapshot :=
  if d.fields.kind ≠ .module then .error .rootNotModule
  else
    let root := Node.ofDeclaration d
    match firstFault [] root.preorder with
    | some fault => .error fault
    | none => .ok ⟨root⟩

/-- Loads a decoded document. -/
def ofJson (j : Json) : Except LoadFault Snapshot :=
  match Declaration.ofJson? j with
  | some d => load d
  | none => .error .malformed

/-- Loads the text of a document. -/
def ofText (text : String) : Except LoadFault Snapshot :=
  match Declaration.ofText? text with
  | some d => load d
  | none => .error .malformed

/-- The nodes in pre-order. -/
def nodes (s : Snapshot) : List Node := s.root.preorder

/-- The name of the package. -/
def rootName (s : Snapshot) : String := s.root.name

/-- The node with a canonical path. -/
def find? (s : Snapshot) (path : String) : Option Node := s.nodes.find? fun n => n.path == path

/-- The directory of the package. -/
def rootDir (s : Snapshot) : Option String := s.root.info.filepath.bind UnixPath.parent

/-- The file of a node below the directory of the package; empty if the node has no file. -/
def relativeFile (s : Snapshot) (n : Node) : String :=
  match n.info.filepath with
  | some file => UnixPath.relativeTo s.rootDir file
  | none => ""

end Snapshot

/-- A node of the flat listing. -/
structure Entry where
  /-- The position in the listing. -/
  id : Nat
  /-- The position of the parent. -/
  parent : Option Nat
  /-- The positions of the members in declaration order. -/
  children : List Nat
  info : NodeInfo

namespace Node

mutual

/-- The number of nodes of a tree. -/
def size : Node → Nat
  | .mk _ cs => sizeAll cs + 1

/-- The number of nodes of several trees. -/
def sizeAll : List Node → Nat
  | [] => 0
  | c :: cs => c.size + sizeAll cs

end

/-- The positions of trees that are listed one after the other from `start`. -/
def positions (start : Nat) : List Node → List Nat
  | [] => []
  | c :: cs => start :: positions (start + c.size) cs

mutual

/-- The listing of a tree from position `start`. -/
def listing (parent : Option Nat) (start : Nat) : Node → List Entry
  | .mk i cs => ⟨start, parent, positions (start + 1) cs, i⟩ :: listingAll start (start + 1) cs

/-- The listings of the members of the node at `parent`. -/
def listingAll (parent start : Nat) : List Node → List Entry
  | [] => []
  | c :: cs => c.listing (some parent) start ++ listingAll parent (start + c.size) cs

end

end Node

namespace Snapshot

/-- The flat listing: pre-order, with every node at the position that is its number. -/
def entries (s : Snapshot) : List Entry := s.root.listing none 0

/-- The number of the node with a canonical path. -/
def numberOf? (s : Snapshot) (path : String) : Option Nat :=
  (s.entries.find? fun e => e.info.path == path).map Entry.id

/-- The number of the first member of that name of the node with a canonical path. -/
def memberNumber? (s : Snapshot) (path name : String) : Option Nat := do
  let parent ← s.numberOf? path
  let entry ← s.entries[parent]?
  entry.children.find? fun c => (s.entries[c]?).any fun e => e.info.name == name

end Snapshot

end ApiPages
