import ApiPages.Expr.Basic
import ApiPages.Json.Decode

/-!
# Expressions as JSON

An expression is an object with its kind and the fields of that kind, or an array of the kind and
the fields in order. All fields of a kind are needed, and other fields are ignored. Inside another
expression the kind may also be given by its position among the kinds.

* `Expr.toJson` — the object of an expression.
* `Expr.ofJson?` — the expression of a value.
-/

namespace ApiPages.Expr

mutual

/-- The object of an expression. -/
def toJson : Expr → Json
  | .name n => .obj [("kind", .str "name"), ("name", .str n.spelling), ("path", .str n.path)]
  | .dotted es => .obj [("kind", .str "attribute"), ("values", .arr (toJsonAll es))]
  | .subscript l s =>
    .obj [("kind", .str "subscript"), ("left", l.toJson), ("slice", s.toJson)]
  | .tuple es => .obj [("kind", .str "tuple"), ("elements", .arr (toJsonAll es))]
  | .list es => .obj [("kind", .str "list"), ("elements", .arr (toJsonAll es))]
  | .binop l o r =>
    .obj [("kind", .str "binop"), ("left", l.toJson), ("operator", .str o), ("right", r.toJson)]
  | .call f es =>
    .obj [("kind", .str "call"), ("function", f.toJson), ("arguments", .arr (toJsonAll es))]
  | .keyword n e => .obj [("kind", .str "keyword"), ("name", .str n), ("value", e.toJson)]
  | .constant c => .obj [("kind", .str "constant"), ("value", .str c)]

/-- The objects of expressions. -/
def toJsonAll : List Expr → List Json
  | [] => []
  | e :: es => e.toJson :: toJsonAll es

end

/-- The kind that a value names; inside an expression its position will do. -/
def kindOf? (inside : Bool) : Json → Option String
  | .str s => if s ∈ kindLabels then some s else none
  | .nat i => if inside then kindLabels[i]? else none
  | _ => none

/-- The kind of an expression and the value that holds its other fields. -/
def tagged? (inside : Bool) : Json → Option (String × Json)
  | .obj fs =>
    match fs.filter fun f => f.1 == "kind" with
    | [(_, tag)] =>
      (kindOf? inside tag).map fun kind => (kind, .obj (fs.filter fun f => f.1 != "kind"))
    | _ => none
  | .arr (tag :: xs) => (kindOf? inside tag).map fun kind => (kind, .arr xs)
  | _ => none

/-- The expression of a value that nests no deeper than `fuel`. -/
def ofJsonAt? (inside : Bool) (fuel : Nat) (j : Json) : Option Expr :=
  match fuel with
  | 0 => none
  | fuel + 1 => do
    let (kind, rest) ← tagged? inside j
    let part := ofJsonAt? true fuel
    match kind with
    | "name" =>
      let r ← rest.record? ["name", "path"]
      return .name ⟨← r.required "name" Json.asString?, ← r.required "path" Json.asString?⟩
    | "attribute" =>
      let r ← rest.record? ["values"]
      return .dotted (← r.required "values" (Json.asList? part))
    | "subscript" =>
      let r ← rest.record? ["left", "slice"]
      return .subscript (← r.required "left" part) (← r.required "slice" part)
    | "tuple" =>
      let r ← rest.record? ["elements"]
      return .tuple (← r.required "elements" (Json.asList? part))
    | "list" =>
      let r ← rest.record? ["elements"]
      return .list (← r.required "elements" (Json.asList? part))
    | "binop" =>
      let r ← rest.record? ["left", "operator", "right"]
      return .binop (← r.required "left" part) (← r.required "operator" Json.asString?)
        (← r.required "right" part)
    | "call" =>
      let r ← rest.record? ["function", "arguments"]
      return .call (← r.required "function" part) (← r.required "arguments" (Json.asList? part))
    | "keyword" =>
      let r ← rest.record? ["name", "value"]
      return .keyword (← r.required "name" Json.asString?) (← r.required "value" part)
    | "constant" =>
      let r ← rest.record? ["value"]
      return .constant (← r.required "value" Json.asString?)
    | _ => none

/-- The expression of a value. Every part of the value has to be readable, also what is ignored. -/
def ofJson? (j : Json) : Option Expr :=
  if j.isReadable then ofJsonAt? false (j.depth + 1) j else none

end ApiPages.Expr
