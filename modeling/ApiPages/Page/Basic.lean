import ApiPages.Dict

/-!
# Pages

What is written about one module: its documentation and that of the files, classes, functions and
attributes it shows.

* `Semantic` — the role of a part of a page, with further remarks.
* `DocText`, `Documentation` — rendered sections.
* `Code` — the source of a symbol.
* `AttributeEntry`, `CallableEntry`, `ClassEntry`, `ChildEntry`, `FileEntry` — the parts of a page.
* `Page` — the page of a module.
-/

namespace ApiPages

/-- The role of a part of a page. -/
structure Semantic where
  role : String
  labels : List String
  /-- Remarks by name; a remark may be empty. -/
  attributes : Dict (Option String)
  /-- Canonical paths by relation. -/
  relations : Dict (List String)
deriving DecidableEq

namespace Semantic

/-- A role without remarks. -/
def ofRole (role : String) : Semantic := ⟨role, [], ∅, ∅⟩

/-- The same role with a remark. -/
def withAttribute (s : Semantic) (name : String) (value : Option String) : Semantic :=
  { s with attributes := s.attributes.insert name value }

/-- The same role with a relation. -/
def withRelation (s : Semantic) (name : String) (paths : List String) : Semantic :=
  { s with relations := s.relations.insert name paths }

end Semantic

/-- A rendered section; its content is Markdown. -/
structure DocText where
  title : Option String
  content : String
  semantic : Semantic
deriving DecidableEq

/-- The rendered sections of a symbol. -/
structure Documentation where
  sections : List DocText
deriving DecidableEq

/-- The source of a symbol. -/
structure Code where
  /-- The file below the directory of the package. -/
  file : String
  startLine : Option UInt32
  endLine : Option UInt32
  declaration : String
  /-- The whole source of a class or a function. -/
  implementation : Option String
  /-- Links of the names in the declaration; a name may have none. -/
  references : Dict (Option String)
deriving DecidableEq

/-- An attribute of a module or a class. -/
structure AttributeEntry where
  name : String
  semantic : Semantic
  documentation : Documentation
  path : String
  code : Code
deriving DecidableEq

/-- A function or a method. -/
structure CallableEntry where
  name : String
  documentation : Documentation
  path : String
  code : Code
  semantic : Semantic
deriving DecidableEq

/-- A class with its members. -/
structure ClassEntry where
  name : String
  documentation : Documentation
  path : String
  semantic : Semantic
  attributes : List AttributeEntry
  callables : List CallableEntry
  code : Code
deriving DecidableEq

/-- A package that has a page of its own. -/
structure ChildEntry where
  name : String
  /-- The canonical path. -/
  path : String
  /-- The package has no documented package in it. -/
  isLeaf : Bool
deriving DecidableEq, Repr

/-- A module that is a plain file. -/
structure FileEntry where
  name : String
  /-- The file below the directory of the package. -/
  path : String
  documentation : Documentation
deriving DecidableEq

/-- The page of a module. -/
structure Page where
  name : String
  path : String
  semantic : Semantic
  children : List ChildEntry
  attributes : List AttributeEntry
  types : List ClassEntry
  callables : List CallableEntry
  files : List FileEntry
  documentation : Documentation
deriving DecidableEq

end ApiPages
