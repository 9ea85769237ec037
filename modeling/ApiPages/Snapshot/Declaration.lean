import ApiPages.Expr.Json
import ApiPages.Json.Parser

/-!
# Declarations

A snapshot document is a tree of declarations: modules, classes, functions, attributes and
re-exports, each with its members.

* `DeclKind` — the five kinds.
* `Parameter` — a parameter of a function.
* `DeclFields`, `Declaration` — the fields of a declaration, and the tree.
* `Declaration.ofJson?` — the tree of a JSON value; every field is checked on every kind.
-/

namespace ApiPages

/-- The kind of a declaration. -/
inductive DeclKind where
  | module
  | classType
  | function
  | attr
  | reexport
deriving DecidableEq, Repr

namespace DeclKind

/-- All kinds. -/
def all : List DeclKind := [module, classType, function, attr, reexport]

/-- The word for a kind. -/
def label : DeclKind → String
  | module => "module"
  | classType => "class"
  | function => "function"
  | attr => "attribute"
  | reexport => "alias"

/-- The kind that a value names. -/
def ofJson? (j : Json) : Option DeclKind :=
  (j.asUnitCase? (all.map label)).bind fun s => all.find? fun k => k.label == s

end DeclKind

/-- A parameter of a function. -/
structure Parameter where
  name : String
  /-- How the parameter may be given. -/
  kind : Option String
  /-- The annotation. -/
  typeExpr : Option Expr
  default : Option Expr
deriving Repr

/-- What a declaration says about itself. -/
structure DeclFields where
  kind : DeclKind
  name : String
  docstring : Option String
  /-- The file it is declared in; a declaration without one shares that of its parent. -/
  filepath : Option String
  lineno : Option UInt32
  endlineno : Option UInt32
  /-- The source lines. -/
  lines : List String
  bases : List Expr
  decorators : List Expr
  parameters : List Parameter
  returns : Option Expr
  /-- A member that a base class declares. -/
  inherited : Bool
  /-- The annotation of an attribute. -/
  typeExpr : Option Expr
  value : Option Expr
  /-- What a re-export stands for, if that is known. -/
  target : Option String
  /-- A re-export of everything in its target. -/
  wildcard : Bool

/-- A declaration with its members. -/
inductive Declaration where
  | mk (fields : DeclFields) (members : List Declaration)

namespace Declaration

/-- The fields of the declaration itself. -/
def fields : Declaration → DeclFields
  | mk f _ => f

/-- The members in order. -/
def members : Declaration → List Declaration
  | mk _ ms => ms

/-- The names of the fields of a declaration, in order. -/
def fieldNames : List String :=
  ["kind", "name", "docstring", "filepath", "lineno", "endlineno", "lines", "members", "bases",
    "decorators", "parameters", "returns", "inherited", "annotation", "value", "target", "wildcard"]

/-- Reads a value whose arrays and objects nest at most `limit` deep. -/
def within {α : Type} (limit : Nat) (read : Json → Option α) (j : Json) : Option α :=
  if j.depth ≤ limit then read j else none

/-- An expression or null, nested at most `limit` deep. -/
def optionalExpr (limit : Nat) : Json → Option (Option Expr) :=
  within limit (Json.asOption? Expr.ofJson?)

/-- An array of expressions, nested at most `limit` deep. -/
def exprList (limit : Nat) : Json → Option (List Expr) := within limit (Json.asList? Expr.ofJson?)

/-- A parameter in at most `limit` further arrays and objects. -/
def parameter? (limit : Nat) (j : Json) : Option Parameter :=
  match limit with
  | 0 => none
  | limit + 1 => do
    let r ← j.record? ["name", "kind", "annotation", "default"]
    return {
      name := ← r.required "name" Json.asString?
      kind := ← r.withDefault "kind" none (Json.asOption? Json.asString?)
      typeExpr := ← r.withDefault "annotation" none (optionalExpr limit)
      default := ← r.withDefault "default" none (optionalExpr limit) }

/-- An array read in at most `limit` further arrays and objects; the elements have one less. -/
def listWithin? {α : Type} (limit : Nat) (read : Nat → Json → Option α) (j : Json) :
    Option (List α) :=
  match limit with
  | 0 => none
  | limit + 1 => j.asList? (read limit)

/-- The fields of a declaration, with at most `limit` arrays and objects inside it. -/
def fieldsOf? (limit : Nat) (r : Record) : Option DeclFields := do
  let text := Json.asOption? Json.asString?
  let line := Json.asOption? Json.asLine?
  return {
    kind := ← r.required "kind" (within limit DeclKind.ofJson?)
    name := ← r.required "name" Json.asString?
    docstring := ← r.withDefault "docstring" none text
    filepath := ← r.withDefault "filepath" none text
    lineno := ← r.withDefault "lineno" none line
    endlineno := ← r.withDefault "endlineno" none line
    lines := ← r.withDefault "lines" [] (within limit Json.asStrings?)
    bases := ← r.withDefault "bases" [] (exprList limit)
    decorators := ← r.withDefault "decorators" [] (exprList limit)
    parameters := ← r.withDefault "parameters" [] (listWithin? limit parameter?)
    returns := ← r.withDefault "returns" none (optionalExpr limit)
    inherited := ← r.withDefault "inherited" false Json.asBool?
    typeExpr := ← r.withDefault "annotation" none (optionalExpr limit)
    value := ← r.withDefault "value" none (optionalExpr limit)
    target := ← r.withDefault "target" none text
    wildcard := ← r.withDefault "wildcard" false Json.asBool? }

/-- The declaration of a value whose known parts nest at most `limit` deep. -/
def ofJsonAt? (limit : Nat) (j : Json) : Option Declaration :=
  match limit with
  | 0 => none
  | limit + 1 => do
    let r ← j.record? fieldNames
    let fields ← fieldsOf? limit r
    let members ←
      match limit with
      | 0 => r.withDefault "members" [] fun _ => none
      | inner + 1 => r.withDefault "members" [] (Json.asList? (ofJsonAt? inner))
    return .mk fields members

/-- The declaration of a value of any depth. -/
def ofJson? (j : Json) : Option Declaration := ofJsonAt? j.depth j

/-- How deep the known parts of a document may nest. -/
def textDepthLimit : Nat := 127

/-- The declaration of a document. -/
def ofText? (text : String) : Option Declaration :=
  (Json.parse? text).bind (ofJsonAt? textDepthLimit)

end Declaration

end ApiPages
