import ApiPages.DottedPath
import ApiPages.Json.Basic

/-!
# Symbols and navigation paths

A documented symbol has a kind and a navigation path. The navigation path is the symbol's path with
slashes in the place of all dots but the last ones: a module keeps one segment together, a class, a
function or an attribute two, a member of a class three.

* `SymbolKind` — the six kinds.
* `navigationPath` — the navigation path of a symbol of a kind.
* `SymbolRef` — a kind and a navigation path.
-/

namespace ApiPages

/-- The kind of a documented symbol. -/
inductive SymbolKind where
  | module
  | classType
  | function
  | attr
  | method
  | property
deriving DecidableEq, Repr

namespace SymbolKind

/-- All kinds. -/
def all : List SymbolKind := [module, classType, function, attr, method, property]

/-- The word for a kind. -/
def label : SymbolKind → String
  | module => "module"
  | classType => "class"
  | function => "function"
  | attr => "attribute"
  | method => "method"
  | property => "property"

/-- The kind of a word. -/
def ofLabel? (s : String) : Option SymbolKind := all.find? fun k => k.label == s

/-- How many segments at the end of a path stay together. -/
def leafSegments : SymbolKind → Nat
  | module => 1
  | classType => 2
  | function => 2
  | attr => 2
  | method => 3
  | property => 3

/-- The symbol is declared in the body of a class. -/
def isMember : SymbolKind → Bool
  | method => true
  | property => true
  | _ => false

end SymbolKind

/-- The navigation path of a symbol: leading segments joined by slashes, the last ones by dots. -/
def navigationPath (kind : SymbolKind) (path : String) : String :=
  let segments := DottedPath.segments path
  let cut := segments.length - kind.leafSegments
  let leaf := Text.joinStrings "." (segments.drop cut)
  if cut = 0 then leaf else Text.joinStrings "/" (segments.take cut) ++ "/" ++ leaf

/-- An entry of the symbol table. -/
structure SymbolRef where
  /-- The kind of the symbol. -/
  kind : SymbolKind
  /-- Where the symbol's documentation is found. -/
  navigation : String
deriving DecidableEq, Repr

namespace SymbolRef

/-- The entry of a symbol with a path relative to the root. -/
def ofPath (kind : SymbolKind) (path : String) : SymbolRef := ⟨kind, navigationPath kind path⟩

/-- The entry as JSON. -/
def toJson (s : SymbolRef) : Json :=
  .obj [("kind", .str s.kind.label), ("navigation_path", .str s.navigation)]

end SymbolRef

end ApiPages
