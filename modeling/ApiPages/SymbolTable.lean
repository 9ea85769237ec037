import ApiPages.Dict
import ApiPages.ModuleWalk
import ApiPages.Symbol

/-!
# The symbol table

The table maps the path of every documented symbol, relative to the root, to its kind and navigation
path.

* `SymbolTable` — the table.
* `SymbolTable.symbolsOf` — the symbols that the page of a module documents.
* `SymbolTable.build` — the table of a snapshot, within a depth limit.
-/

namespace ApiPages

/-- Symbols by relative path. -/
abbrev SymbolTable := Dict SymbolRef

namespace SymbolTable

/-- The symbols of a class: itself, its methods and its properties. -/
def symbolsOfClass (c : Node) : List (Node × SymbolKind) :=
  (c, .classType) :: (Contents.methods c).map (fun n => (n, .method))
    ++ (Contents.classAttributes c).map fun n => (n, .property)

/-- The symbols that the page of a module documents. -/
def symbolsOf (module : Node) : List (Node × SymbolKind) :=
  let c := Contents.ofModule module
  (module, .module) :: c.files.map (fun n => (n, .module))
    ++ c.functions.map (fun n => (n, .function))
    ++ c.attributes.map (fun n => (n, .attr))
    ++ c.classes.flatMap symbolsOfClass

/-- The entry of a symbol. -/
def entryOf (root : String) (s : Node × SymbolKind) : String × SymbolRef :=
  let key := DottedPath.relativeTo root s.1.path
  (key, SymbolRef.ofPath s.2 key)

/-- The table of the symbols on the pages of a walk. -/
def ofWalk (root : String) (walk : List Visit) : SymbolTable :=
  Dict.ofList ((walk.flatMap fun v => symbolsOf v.module).map (entryOf root))

/-- The symbol table of a snapshot; a page below the depth limit ends the run. -/
def build (s : Snapshot) (limit : Nat) : Except Failure SymbolTable :=
  (Visit.guard limit s.pages).map (ofWalk s.rootName)

/-- The table as JSON. -/
def toJson (t : SymbolTable) : Json := .obj (t.entries.map fun e => (e.1, e.2.toJson))

end SymbolTable

end ApiPages
