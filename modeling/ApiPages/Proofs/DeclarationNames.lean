import ApiPages.Page.Build
import ApiPages.Proofs.ExprNames
import Mathlib.Data.List.Basic

/-!
# Names in declarations

A declaration refers to the names in its type-bearing fields: a class to those in its decorators and
bases, a function to those in the annotations of its parameters and of what it returns, an attribute
to those in its annotation and its value. A class and a function refer to themselves besides. Other
nodes refer to nothing.

* `Node.fieldNames`, `Node.ownNames` — the names of a declaration, in order.
* `Node.HasField`, `Node.RefersTo` — the type-bearing fields, and what a declaration refers to.

Results:

* `Project.linkedNames_eq`: the names that are linked are those of the fields and the own name.
* `Node.refersTo_iff`: a declaration refers to the paths of these names.
* `Project.references_codeOf`, `Project.findings_codeOf`: the links of these names, and what is
  found on the way.
-/

namespace ApiPages

namespace Node

/-- The names in the type-bearing fields of a node, in order. -/
def fieldNames (n : Node) : List NameRef :=
  match n.info.kind with
  | .classType bases decorators => decorators.flatMap Expr.names ++ bases.flatMap Expr.names
  | .function parameters returns _ _ =>
    parameters.flatMap (fun x => x.typeExpr.toList.flatMap Expr.names)
      ++ returns.toList.flatMap Expr.names
  | .attr typeExpr value _ =>
    typeExpr.toList.flatMap Expr.names ++ value.toList.flatMap Expr.names
  | .module _ => []
  | .reexport _ _ => []

/-- The name by which a class or a function refers to itself. -/
def ownNames (n : Node) : List NameRef :=
  match n.info.kind with
  | .classType _ _ => [⟨n.name, n.path⟩]
  | .function _ _ _ _ => [⟨n.name, n.path⟩]
  | .attr _ _ _ => []
  | .module _ => []
  | .reexport _ _ => []

/-- The names that a node is shown with: those of its fields, and its own if it is a class or a
function. -/
def shownNames (n : Node) : List NameRef := n.fieldNames ++ n.ownNames

/-- The expression is in a type-bearing field of the node. -/
inductive HasField (n : Node) : Expr → Prop
  | decorator {bases decorators : List Expr} {e : Expr}
      (hn : n.info.kind = .classType bases decorators) (he : e ∈ decorators) : n.HasField e
  | base {bases decorators : List Expr} {e : Expr}
      (hn : n.info.kind = .classType bases decorators) (he : e ∈ bases) : n.HasField e
  | parameter {parameters : List Parameter} {returns : Option Expr} {decorators : List Expr}
      {inherited : Bool} {x : Parameter} {e : Expr}
      (hn : n.info.kind = .function parameters returns decorators inherited) (hx : x ∈ parameters)
      (he : x.typeExpr = some e) : n.HasField e
  | returned {parameters : List Parameter} {decorators : List Expr} {inherited : Bool} {e : Expr}
      (hn : n.info.kind = .function parameters (some e) decorators inherited) : n.HasField e
  | attrType {value : Option Expr} {inherited : Bool} {e : Expr}
      (hn : n.info.kind = .attr (some e) value inherited) : n.HasField e
  | value {typeExpr : Option Expr} {inherited : Bool} {e : Expr}
      (hn : n.info.kind = .attr typeExpr (some e) inherited) : n.HasField e

/-- The declaration of a node refers to the path. -/
inductive RefersTo (n : Node) : String → Prop
  | field {e : Expr} {r : NameRef} (he : n.HasField e) (hr : r ∈ e.names) : n.RefersTo r.path
  | ownClass {bases decorators : List Expr} (hn : n.info.kind = .classType bases decorators) :
      n.RefersTo n.path
  | ownFunction {parameters : List Parameter} {returns : Option Expr} {decorators : List Expr}
      {inherited : Bool} (hn : n.info.kind = .function parameters returns decorators inherited) :
      n.RefersTo n.path

variable {n : Node} {path : String}

theorem mem_fieldNames_iff {r : NameRef} :
    r ∈ n.fieldNames ↔ ∃ e, n.HasField e ∧ r ∈ e.names := by
  unfold fieldNames
  constructor
  · intro hr
    cases hn : n.info.kind with
    | classType bases decorators =>
      simp only [hn, List.mem_append, List.mem_flatMap] at hr
      rcases hr with ⟨e, he, hr⟩ | ⟨e, he, hr⟩
      · exact ⟨e, .decorator hn he, hr⟩
      · exact ⟨e, .base hn he, hr⟩
    | function parameters returns decorators inherited =>
      simp only [hn, List.mem_append, List.mem_flatMap, Option.mem_toList] at hr
      rcases hr with ⟨x, hx, e, he, hr⟩ | ⟨e, rfl, hr⟩
      · exact ⟨e, .parameter hn hx he, hr⟩
      · exact ⟨e, .returned hn, hr⟩
    | attr typeExpr value inherited =>
      simp only [hn, List.mem_append, List.mem_flatMap, Option.mem_toList] at hr
      rcases hr with ⟨e, rfl, hr⟩ | ⟨e, rfl, hr⟩
      · exact ⟨e, .attrType hn, hr⟩
      · exact ⟨e, .value hn, hr⟩
    | module isPackage => simp [hn] at hr
    | reexport target wildcard => simp [hn] at hr
  · rintro ⟨e, he, hr⟩
    cases he with
    | decorator hn he =>
      simp only [hn, List.mem_append, List.mem_flatMap]
      exact Or.inl ⟨e, he, hr⟩
    | base hn he =>
      simp only [hn, List.mem_append, List.mem_flatMap]
      exact Or.inr ⟨e, he, hr⟩
    | parameter hn hx he =>
      simp only [hn, List.mem_append, List.mem_flatMap, Option.mem_toList]
      exact Or.inl ⟨_, hx, e, he, hr⟩
    | returned hn =>
      simp only [hn, List.mem_append, List.mem_flatMap, Option.mem_toList]
      exact Or.inr ⟨e, rfl, hr⟩
    | attrType hn =>
      simp only [hn, List.mem_append, List.mem_flatMap, Option.mem_toList]
      exact Or.inl ⟨e, rfl, hr⟩
    | value hn =>
      simp only [hn, List.mem_append, List.mem_flatMap, Option.mem_toList]
      exact Or.inr ⟨e, rfl, hr⟩

/-- A declaration refers to the paths of the names that it is shown with. -/
theorem refersTo_iff : n.RefersTo path ↔ ∃ r ∈ n.shownNames, r.path = path := by
  unfold shownNames
  constructor
  · intro h
    cases h with
    | field he hr => exact ⟨_, List.mem_append_left _ (mem_fieldNames_iff.mpr ⟨_, he, hr⟩), rfl⟩
    | ownClass hn => exact ⟨⟨n.name, n.path⟩, by simp [ownNames, hn], rfl⟩
    | ownFunction hn => exact ⟨⟨n.name, n.path⟩, by simp [ownNames, hn], rfl⟩
  · rintro ⟨r, hr, rfl⟩
    rcases List.mem_append.mp hr with hr | hr
    · obtain ⟨e, he, hr⟩ := mem_fieldNames_iff.mp hr
      exact .field he hr
    · unfold ownNames at hr
      split at hr
      · next hn =>
        cases List.mem_singleton.mp hr
        exact .ownClass hn
      · next hn =>
        cases List.mem_singleton.mp hr
        exact .ownFunction hn
      all_goals cases hr

theorem ownNames_of_isClass (h : n.isClass = true) : n.ownNames = [⟨n.name, n.path⟩] := by
  unfold isClass at h
  unfold ownNames
  cases hn : n.info.kind <;> simp_all

theorem ownNames_of_isFunction (h : n.isFunction = true) : n.ownNames = [⟨n.name, n.path⟩] := by
  unfold isFunction at h
  unfold ownNames
  cases hn : n.info.kind <;> simp_all

theorem not_refersTo_of_isModule (h : n.isModule = true) : ¬n.RefersTo path := by
  rw [refersTo_iff, shownNames]
  unfold isModule at h
  unfold fieldNames ownNames
  cases hn : n.info.kind <;> simp_all

end Node

namespace Project

/-- The names that are linked are those of the fields and the own name. -/
theorem linkedNames_eq (n : Node) : linkedNames n = n.shownNames := by
  rw [linkedNames, Expr.collectNames_eq, linkedExprs, refersToItself, Node.isFunction,
    Node.isClass, Node.shownNames, Node.fieldNames, Node.ownNames]
  cases n.info.kind with
  | function parameters returns decorators inherited =>
    simp [List.filterMap_eq_flatMap_toList, List.flatMap_assoc]
  | classType bases decorators => simp
  | attr typeExpr value inherited => simp
  | module isPackage => simp
  | reexport target wildcard => simp

variable (p : Project) (n : Node)

/-- The links of a node are those of the names that it is shown with. -/
theorem references_codeOf :
    (p.codeOf n).value.references =
      Dict.ofList (n.shownNames.map fun r => (r.spelling, (p.resolve r.path).value)) := by
  simp [codeOf, referencesOf, resolveName, linkedNames_eq]

theorem findings_codeOf :
    (p.codeOf n).findings = n.shownNames.flatMap fun r => (p.resolve r.path).findings := by
  simp [codeOf, referencesOf, resolveName, linkedNames_eq]

end Project

end ApiPages
