import ApiPages.Snapshot.Node

/-!
# The contents of a module

The page of a module shows what the plain files among its members declare, and lists the documented
packages among them, which have pages of their own.

* `Contents`, `Contents.ofModule` — the documented elements of a module.
* `Contents.isLeaf` — the module has no documented package.
* `Contents.methods`, `Contents.classAttributes` — the documented members that a class declares.
-/

namespace ApiPages

/-- The documented elements of a module. -/
structure Contents where
  /-- Documented packages. -/
  packages : List Node
  /-- Modules that are plain files, documented or not. -/
  files : List Node
  /-- Documented classes of the files. -/
  classes : List Node
  /-- Documented functions of the files. -/
  functions : List Node
  /-- Documented attributes of the files. -/
  attributes : List Node

namespace Contents

/-- The node is a package with a docstring. -/
def isDocumentedPackage (n : Node) : Bool := n.isPackage && n.isDocumented

/-- The node is a module that is a plain file. -/
def isFile (n : Node) : Bool := n.isModule && !n.isPackage

/-- The plain files of a module. -/
def filesOf (module : Node) : List Node := module.children.filter isFile

/-- The documented members of the plain files of a module, in file order. -/
def declared (module : Node) : List Node :=
  (filesOf module).flatMap fun f => f.children.filter Node.isDocumented

/-- The documented elements of a module. -/
def ofModule (module : Node) : Contents where
  packages := module.children.filter isDocumentedPackage
  files := filesOf module
  classes := (declared module).filter Node.isClass
  functions := (declared module).filter Node.isFunction
  attributes := (declared module).filter Node.isAttribute

/-- The module has no documented package. -/
def isLeaf (module : Node) : Bool := !module.children.any isDocumentedPackage

/-- The member is documented and declared by the class itself. -/
def isOwn (n : Node) : Bool := n.isDocumented && !n.isInherited

/-- The documented functions of a class that it does not inherit. -/
def methods (c : Node) : List Node := c.children.filter fun n => n.isFunction && isOwn n

/-- The documented attributes of a class that it does not inherit. -/
def classAttributes (c : Node) : List Node := c.children.filter fun n => n.isAttribute && isOwn n

end Contents

end ApiPages
