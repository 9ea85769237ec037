import ApiPages.Json.Basic

/-!
# Building snapshot documents

Small snapshot documents as JSON values, to be written by a tool that has only names and docstrings
at hand. Source lines are made up from them.

* `Builder.module`, `Builder.classType`, `Builder.function`, `Builder.attr`, `Builder.reexport`,
  `Builder.reexportAll` — one declaration.
* `Builder.nameExpr` — a resolved name.
* `Builder.setField` — a value with one field changed.
* `Builder.nestedPackages` — a chain of packages.
-/

namespace ApiPages.Builder

/-- A module; it is a package if its file is an initialisation file. -/
def module (name filepath : String) (docstring : Option String) (members : List Json) : Json :=
  .obj [("kind", .str "module"), ("name", .str name), ("docstring", .ofOption docstring),
    ("filepath", .str filepath), ("members", .arr members)]

/-- The source line of a docstring. -/
def docstringLine (text : String) : String := "    \"\"\"" ++ text ++ "\"\"\""

/-- The fields of a declaration that starts on the first line and has these source lines. -/
def declared (kind name : String) (docstring : Option String) (lines : List String) :
    List (String × Json) :=
  [("kind", .str kind), ("name", .str name), ("docstring", .ofOption docstring),
    ("lineno", .nat 1), ("endlineno", .nat lines.length), ("lines", .strings lines)]

/-- A class whose body is its docstring. -/
def classType (name : String) (docstring : Option String) (members : List Json) : Json :=
  let lines := ("class " ++ name ++ ":") :: docstring.toList.map docstringLine
  .obj (declared "class" name docstring lines ++ [("members", .arr members)])

/-- A function without parameters. -/
def function (name : String) (docstring : Option String) : Json :=
  let lines := ("def " ++ name ++ "():") :: docstring.toList.map docstringLine ++ ["    pass"]
  .obj (declared "function" name docstring lines)

/-- A literal. -/
def constant (value : String) : Json := .obj [("kind", .str "constant"), ("value", .str value)]

/-- An attribute whose value is a literal. -/
def attr (name : String) (docstring : Option String) : Json :=
  .obj (declared "attribute" name docstring [name ++ " = 1"] ++ [("value", constant "1")])

/-- A re-export under a name. -/
def reexport (name : String) (target : Option String) : Json :=
  .obj [("kind", .str "alias"), ("name", .str name), ("target", .ofOption target),
    ("wildcard", .bool false)]

/-- A re-export of everything in its target, which it is named for. -/
def reexportAll (target : Option String) : Json :=
  .obj [("kind", .str "alias"), ("name", .str (target.getD "unknown" ++ "/*")),
    ("target", .ofOption target), ("wildcard", .bool true)]

/-- A resolved name. -/
def nameExpr (name path : String) : Json :=
  .obj [("kind", .str "name"), ("name", .str name), ("path", .str path)]

/-- An object with a field set; other values have no fields and stay as they are. -/
def setField (node : Json) (name : String) (value : Json) : Json :=
  match node with
  | .obj fs => .obj (fs.filter (fun f => f.1 != name) ++ [(name, value)])
  | j => j

/-- The file of the package in a directory. -/
def packageFileIn (dir : String) : String := dir ++ "/__init__.py"

/-- A chain of `count` documented packages below the directory `dir`, numbered from `level`. The
result is the list of the members of that directory: one package, or none. -/
def chain (dir : String) (level : Nat) : (count : Nat) → List Json
  | 0 => []
  | count + 1 =>
    let name := "p" ++ toString level
    let inner := dir ++ "/" ++ name
    [module name (packageFileIn inner) (some "Nested package.") (chain inner (level + 1) count)]

/-- The package `root` with a chain of `depth` packages in it. -/
def nestedPackages (root : String) (depth : Nat) : Json :=
  module root (packageFileIn root) (some "Root.") (chain root 1 depth)

end ApiPages.Builder
