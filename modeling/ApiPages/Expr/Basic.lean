/-!
# Expressions of type-bearing fields

The annotations, base classes, decorators and values of a snapshot are expression trees. Every name
in them carries the canonical path that it refers to.

* `NameRef` — a name as it is spelled, and its canonical path.
* `Expr` — the expression tree.
-/

namespace ApiPages

/-- A name together with what it refers to. -/
structure NameRef where
  /-- The name as written. -/
  spelling : String
  /-- The canonical path it refers to. -/
  path : String
deriving DecidableEq, Repr

/-- An expression of a type-bearing field. -/
inductive Expr where
  /-- A resolved name. -/
  | name (ref : NameRef)
  /-- A dotted access, one element a segment. -/
  | dotted (values : List Expr)
  /-- `left[slice]` -/
  | subscript (left slice : Expr)
  /-- `(a, b)` -/
  | tuple (elements : List Expr)
  /-- `[a, b]` -/
  | list (elements : List Expr)
  /-- `left operator right` -/
  | binop (left : Expr) (operator : String) (right : Expr)
  /-- `function(arguments)` -/
  | call (function : Expr) (arguments : List Expr)
  /-- `name=value` among the arguments of a call. -/
  | keyword (name : String) (value : Expr)
  /-- A literal, which refers to nothing. -/
  | constant (value : String)
deriving Repr, Inhabited

namespace Expr

/-- The words for the kinds of expressions, in their fixed order. -/
def kindLabels : List String :=
  ["name", "attribute", "subscript", "tuple", "list", "binop", "call", "keyword", "constant"]

/-- The word for the kind of an expression. -/
def kindLabel : Expr → String
  | name _ => "name"
  | dotted _ => "attribute"
  | subscript _ _ => "subscript"
  | tuple _ => "tuple"
  | list _ => "list"
  | binop _ _ _ => "binop"
  | call _ _ => "call"
  | keyword _ _ => "keyword"
  | constant _ => "constant"

end Expr

end ApiPages
