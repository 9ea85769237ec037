import ApiPages.DottedPath
import ApiPages.Snapshot.Declaration
import ApiPages.UnixPath

/-!
# Nodes

A loaded declaration is a node: it knows its canonical path, the file it is in, and the data of its
kind.

* `NodeKind`, `NodeInfo`, `Node` — the data of a kind, of a node, and the tree of nodes.
* `Node.preorder` — the nodes of a tree, every node before its members and in declaration order.
* `Node.ofDeclaration` — the node of a declaration below a parent.
-/

namespace ApiPages

/-- What the kinds of nodes carry. -/
inductive NodeKind where
  /-- A module; a package is one whose own file is an initialisation file. -/
  | module (isPackage : Bool)
  | classType (bases decorators : List Expr)
  | function (parameters : List Parameter) (returns : Option Expr) (decorators : List Expr)
      (inherited : Bool)
  | attr (typeExpr value : Option Expr) (inherited : Bool)
  | reexport (target : Option String) (wildcard : Bool)

/-- The data of one node. -/
structure NodeInfo where
  name : String
  /-- The canonical path. -/
  path : String
  docstring : Option String
  /-- The file of the node: its own, or that of the closest node above that has one. -/
  filepath : Option String
  lineno : Option UInt32
  endlineno : Option UInt32
  lines : List String
  kind : NodeKind

/-- A node with its members. -/
inductive Node where
  | mk (info : NodeInfo) (children : List Node)

namespace Node

/-- The data of the node itself. -/
def info : Node → NodeInfo
  | mk i _ => i

/-- The members in declaration order. -/
def children : Node → List Node
  | mk _ cs => cs

/-- The name of the node. -/
def name (n : Node) : String := n.info.name

/-- The canonical path of the node. -/
def path (n : Node) : String := n.info.path

/-- The node has a docstring that is not blank. -/
def isDocumented (n : Node) : Bool :=
  match n.info.docstring with
  | some d => !Text.isBlankLine d.toList
  | none => false

/-- The node is a module. -/
def isModule (n : Node) : Bool :=
  match n.info.kind with
  | .module _ => true
  | _ => false

/-- The node is a package. -/
def isPackage (n : Node) : Bool :=
  match n.info.kind with
  | .module p => p
  | _ => false

/-- The node is a class. -/
def isClass (n : Node) : Bool :=
  match n.info.kind with
  | .classType _ _ => true
  | _ => false

/-- The node is a function. -/
def isFunction (n : Node) : Bool :=
  match n.info.kind with
  | .function _ _ _ _ => true
  | _ => false

/-- The node is an attribute. -/
def isAttribute (n : Node) : Bool :=
  match n.info.kind with
  | .attr _ _ _ => true
  | _ => false

/-- The node is a re-export. -/
def isReexport (n : Node) : Bool :=
  match n.info.kind with
  | .reexport _ _ => true
  | _ => false

/-- The node is a member that a base class declares. -/
def isInherited (n : Node) : Bool :=
  match n.info.kind with
  | .function _ _ _ inherited => inherited
  | .attr _ _ inherited => inherited
  | _ => false

/-- The kind of the declaration behind the node. -/
def declKind (n : Node) : DeclKind :=
  match n.info.kind with
  | .module _ => .module
  | .classType _ _ => .classType
  | .function _ _ _ _ => .function
  | .attr _ _ _ => .attr
  | .reexport _ _ => .reexport

/-- The source lines as one text. -/
def source (n : Node) : List Char := Text.joinLines (n.info.lines.map String.toList)

mutual

/-- The node and everything below it, parents first. -/
def preorder : Node → List Node
  | .mk i cs => .mk i cs :: preorderAll cs

/-- The nodes of several trees, one tree after the other. -/
def preorderAll : List Node → List Node
  | [] => []
  | c :: cs => c.preorder ++ preorderAll cs

end

/-- The file name that makes a module a package. -/
def packageFile : String := "__init__.py"

/-- The data of the kind of a declaration. -/
def kindOf (f : DeclFields) : NodeKind :=
  match f.kind with
  | .module => .module ((f.filepath.bind UnixPath.fileName) == some packageFile.toList)
  | .classType => .classType f.bases f.decorators
  | .function => .function f.parameters f.returns f.decorators f.inherited
  | .attr => .attr f.typeExpr f.value f.inherited
  | .reexport => .reexport f.target f.wildcard

/-- The data of a declaration at a path and in a file. -/
def infoOf (path : String) (filepath : Option String) (f : DeclFields) : NodeInfo where
  name := f.name
  path := path
  docstring := f.docstring
  filepath := filepath
  lineno := f.lineno
  endlineno := f.endlineno
  lines := f.lines
  kind := kindOf f

mutual

/-- The node of a declaration whose path and file are known. -/
def build (path : String) (filepath : Option String) : Declaration → Node
  | .mk f ms => .mk (infoOf path filepath f) (buildAll path filepath ms)

/-- The nodes of the members of a node. -/
def buildAll (parent : String) (inheritedFile : Option String) : List Declaration → List Node
  | [] => []
  | .mk f ms :: rest =>
    build (DottedPath.child parent f.name) (f.filepath.or inheritedFile) (.mk f ms)
      :: buildAll parent inheritedFile rest

end

/-- The node of a declaration that has no parent. -/
def ofDeclaration (d : Declaration) : Node := build d.fields.name d.fields.filepath d

end Node

end ApiPages
