import ApiPages.Proofs.Bins
import ApiPages.Proofs.PageFindings
import Mathlib.Algebra.BigOperators.Group.List.Basic

/-!
# Names by their spelling

A symbol is shown with the links of the names in its declaration, listed by spelling. Names of one
spelling share a link: that of the last one, in the order of the fields and with the own name of the
symbol behind them. The bases of a class are listed by path; the names in front of a dotted base and
the names in the brackets of a generic one are listed with it.

Results:

* `Dict.exists_last_of_mem`: in a dictionary of entries the last one of a name is found.
* `Project.references_by_spelling`: the link of a spelling is that of its last name.
* `BaseExpr.names_toExpr`: the names in a base.
* `Project.relations_classEntry`: the bases that are listed, and when they are all that is listed.
-/

namespace ApiPages

/-! ## The last name of a spelling -/

/-- An entry of a name that is listed is found, or one behind it that has the same name. -/
theorem Dict.exists_last_of_mem {α β : Type} (name : α → String) (value : α → β) {xs : List α}
    {x : α} (hx : x ∈ xs) :
    ∃ before last after, xs = before ++ last :: after ∧ name last = name x ∧
      (∀ y ∈ after, name y ≠ name x) ∧
      (ofList (xs.map fun y => (name y, value y))).get? (name x) = some (value last) := by
  have hfound : (xs.reverse.find? fun y => name y = name x).isSome = true :=
    List.find?_isSome.mpr ⟨x, List.mem_reverse.mpr hx, decide_eq_true rfl⟩
  obtain ⟨last, hlast⟩ := Option.isSome_iff_exists.mp hfound
  obtain ⟨hname, after, before, hsplit, hafter⟩ := List.find?_eq_some_iff_append.mp hlast
  have hvalue : (ofList (xs.map fun y => (name y, value y))).get? (name x) =
      some (value last) := by
    rw [get?_ofList, ← List.map_reverse, List.find?_map]
    simp only [Function.comp_def, hlast, Option.map_some]
  refine ⟨before.reverse, last, after.reverse, ?_, by simpa using hname, ?_, hvalue⟩
  · rw [← List.reverse_reverse xs, hsplit]
    simp
  · intro y hy
    simpa using hafter y (List.mem_reverse.mp hy)

namespace Project

variable (p : Project)

/-- Every name in a type-bearing field is listed with a link: that of the last name of its spelling.
So it has its own link if all names of its spelling stand for the same path. -/
theorem references_by_spelling (n : Node) {r : NameRef} (hr : r ∈ n.fieldNames) :
    (∃ before last after, n.shownNames = before ++ last :: after ∧ last.spelling = r.spelling ∧
      (∀ s ∈ after, s.spelling ≠ r.spelling) ∧
      (p.codeOf n).value.references.get? r.spelling = some (p.resolve last.path).value) ∧
    ((∀ s ∈ n.shownNames, s.spelling = r.spelling → s.path = r.path) →
      (p.codeOf n).value.references.get? r.spelling = some (p.resolve r.path).value) := by
  have hshown : r ∈ n.shownNames := List.mem_append_left _ hr
  obtain ⟨before, last, after, hsplit, hspelling, hafter, hget⟩ :=
    Dict.exists_last_of_mem NameRef.spelling (fun s => (p.resolve s.path).value) hshown
  rw [← p.references_codeOf] at hget
  refine ⟨⟨before, last, after, hsplit, hspelling, hafter, hget⟩, fun hsame => ?_⟩
  have hmem : last ∈ n.shownNames := by
    rw [hsplit]
    exact List.mem_append_right _ List.mem_cons_self
  rw [hget, hsame last hmem hspelling]

end Project

/-- A package in which three files declare a class `Base`. The one in `a` is decorated by a function
of `core`, and an attribute beside it has this class for its type and this function for its value.
The one in `b` has a base that is a name, the one in `core` has the one in `a` and a generic class
as its bases, and the function beside it has those in `a` and in `b` as its types. -/
def packageWithNamesakes : Declaration :=
  let baseIn (file : String) : List Expr :=
    [.name ⟨file, "p." ++ file⟩, .name ⟨"Base", "p." ++ file ++ ".Base"⟩]
  let generic : Expr :=
    .subscript (.name ⟨"Generic", "typing.Generic"⟩) (.name ⟨"T", "p.core.T"⟩)
  .mk { DeclFields.named .module "p" with
      filepath := some "p/__init__.py", docstring := some "Root." }
    [.mk { DeclFields.named .module "a" with filepath := some "p/a.py" }
      [.mk { DeclFields.named .classType "Base" with
          docstring := some "A class.", decorators := [.name ⟨"join", "p.core.join"⟩] } [],
      .mk { DeclFields.named .attr "start" with
          docstring := some "The start.", typeExpr := some (.name ⟨"Base", "p.a.Base"⟩),
          value := some (.name ⟨"join", "p.core.join"⟩) } []],
    .mk { DeclFields.named .module "b" with filepath := some "p/b.py" }
      [.mk { DeclFields.named .classType "Base" with
          docstring := some "A class.", bases := [.name ⟨"Enum", "enum.Enum"⟩] } []],
    .mk { DeclFields.named .module "core" with filepath := some "p/core.py" }
      [.mk { DeclFields.named .classType "Base" with
          docstring := some "A class.", bases := [.dotted (baseIn "a"), generic] } [],
      .mk { DeclFields.named .function "join" with
          docstring := some "Joins.", returns := some (.dotted (baseIn "b")),
          parameters := [⟨"x", none, some (.dotted (baseIn "a")), none⟩] } []]]

namespace packageWithNamesakes

/-- The files `a`, `b` and `core`. -/
def file (i : Fin 3) : Node := (Node.ofDeclaration packageWithNamesakes).children.get i

/-- The class in `a`. -/
def decorated : Node := (file 0).children.get (0 : Fin 2)

/-- The attribute in `a`. -/
def startAttribute : Node := (file 0).children.get (1 : Fin 2)

/-- The class in `b`. -/
def enumeration : Node := (file 1).children.get (0 : Fin 1)

/-- The class in `core`. -/
def classNode : Node := (file 2).children.get (0 : Fin 2)

/-- The function in `core`. -/
def function : Node := (file 2).children.get (1 : Fin 2)

end packageWithNamesakes

namespace Project

/-- The class in `core` is shown with the link of the file that its first base is in, the class in
`a` with that of its decorator, and the attribute with those of its annotation and its value. -/
theorem packageWithNamesakes_linked :
    ∃ s project, Snapshot.load packageWithNamesakes = .ok s ∧
      Project.build s { Settings.standard with useStandardLinks := false } = .ok project ∧
      ⟨"a", "p.a"⟩ ∈ packageWithNamesakes.classNode.fieldNames ∧
      (project.value.codeOf packageWithNamesakes.classNode).value.references.get? "a" =
        some (some "@nav/api/a") ∧
      ⟨"join", "p.core.join"⟩ ∈ packageWithNamesakes.decorated.fieldNames ∧
      (project.value.codeOf packageWithNamesakes.decorated).value.references.get? "join" =
        some (some "@nav/api/core.join") ∧
      ⟨"Base", "p.a.Base"⟩ ∈ packageWithNamesakes.startAttribute.fieldNames ∧
      (project.value.codeOf packageWithNamesakes.startAttribute).value.references.get? "Base" =
        some (some "@nav/api/a.Base") ∧
      ⟨"join", "p.core.join"⟩ ∈ packageWithNamesakes.startAttribute.fieldNames ∧
      (project.value.codeOf packageWithNamesakes.startAttribute).value.references.get? "join" =
        some (some "@nav/api/core.join") := by
  have hbase : ⟨"a", "p.a"⟩ ∈ packageWithNamesakes.classNode.fieldNames := by decide +kernel
  have hdecorator : ⟨"join", "p.core.join"⟩ ∈ packageWithNamesakes.decorated.fieldNames := by
    decide +kernel
  have htype : ⟨"Base", "p.a.Base"⟩ ∈ packageWithNamesakes.startAttribute.fieldNames := by
    decide +kernel
  have hvalue : ⟨"join", "p.core.join"⟩ ∈ packageWithNamesakes.startAttribute.fieldNames := by
    decide +kernel
  refine ⟨⟨Node.ofDeclaration packageWithNamesakes⟩, _, rfl, rfl, hbase, ?_, hdecorator, ?_,
    htype, ?_, hvalue, ?_⟩
  · refine ((references_by_spelling _ _ hbase).2 (by decide +kernel)).trans ?_
    decide +kernel
  · refine ((references_by_spelling _ _ hdecorator).2 (by decide +kernel)).trans ?_
    decide +kernel
  · refine ((references_by_spelling _ _ htype).2 (by decide +kernel)).trans ?_
    decide +kernel
  · refine ((references_by_spelling _ _ hvalue).2 (by decide +kernel)).trans ?_
    decide +kernel

/-- The class that the function names first is linked, but the function is shown with the link of
its namesake that it names last. The class in `core` is shown with its own link in the place of that
of its base. -/
theorem packageWithNamesakes_hidden :
    ∃ s project, Snapshot.load packageWithNamesakes = .ok s ∧
      Project.build s { Settings.standard with useStandardLinks := false } = .ok project ∧
      (project.value.resolve "p.a.Base").value = some "@nav/api/a.Base" ∧
      packageWithNamesakes.function ∈ s.nodes ∧
      ⟨"Base", "p.a.Base"⟩ ∈ packageWithNamesakes.function.fieldNames ∧
      (project.value.codeOf packageWithNamesakes.function).value.references.get? "Base" =
        some (some "@nav/api/b.Base") ∧
      packageWithNamesakes.classNode ∈ s.nodes ∧
      ⟨"Base", "p.a.Base"⟩ ∈ packageWithNamesakes.classNode.fieldNames ∧
      (project.value.codeOf packageWithNamesakes.classNode).value.references.get? "Base" =
        some (some "@nav/api/core.Base") := by
  have hcore : packageWithNamesakes.file 2 ∈
      Snapshot.nodes ⟨Node.ofDeclaration packageWithNamesakes⟩ :=
    Node.mem_preorder_of_mem_children (Node.self_mem_preorder _) (List.get_mem _ _)
  refine ⟨⟨Node.ofDeclaration packageWithNamesakes⟩, _, rfl, rfl, by decide +kernel,
    Snapshot.child_mem_nodes hcore (List.get_mem _ _), by decide +kernel, by decide +kernel,
    Snapshot.child_mem_nodes hcore (List.get_mem _ _), by decide +kernel, by decide +kernel⟩

end Project

/-! ## Bases -/

/-- If there are no more entries than lists, and no list is empty, every list has one entry. -/
theorem length_eq_one_of_length_flatMap {α β : Type} {f : α → List β} {xs : List α}
    (hf : ∀ x ∈ xs, f x ≠ []) (h : (xs.flatMap f).length = xs.length) :
    ∀ x ∈ xs, (f x).length = 1 := by
  induction xs with
  | nil => exact List.forall_mem_nil _
  | cons x xs ih =>
    obtain ⟨hx, hxs⟩ := List.forall_mem_cons.mp hf
    have hfirst := List.length_pos_iff.mpr hx
    have hrest : xs.length ≤ (xs.flatMap f).length := by
      rw [List.length_flatMap, ← List.length_map (f := fun x => (f x).length)]
      refine List.length_le_sum_of_one_le _ ?_
      simpa [Nat.one_le_iff_ne_zero] using hxs
    rw [List.flatMap_cons, List.length_append, List.length_cons] at h
    exact List.forall_mem_cons.mpr ⟨by omega, ih hxs (by omega)⟩

/-- A base of a class as it is written. -/
inductive BaseExpr where
  /-- `Base` -/
  | name (ref : NameRef)
  /-- `module.Base`, with names in front of the last one -/
  | dotted (qualifiers : List NameRef) (last : NameRef)
  /-- `Base[slice]` -/
  | subscript (generic : BaseExpr) (slice : Expr)

namespace BaseExpr

/-- The expression of a base. -/
def toExpr : BaseExpr → Expr
  | name r => .name r
  | dotted qualifiers last => .dotted ((qualifiers ++ [last]).map .name)
  | subscript generic slice => .subscript generic.toExpr slice

/-- The class that a base stands for. -/
def base : BaseExpr → NameRef
  | name r => r
  | dotted _ last => last
  | subscript generic _ => generic.base

/-- The names in front of a dotted base. -/
def qualifiers : BaseExpr → List NameRef
  | name _ => []
  | dotted qualifiers _ => qualifiers
  | subscript generic _ => generic.qualifiers

/-- The names in the brackets of a generic base. -/
def arguments : BaseExpr → List NameRef
  | name _ => []
  | dotted _ _ => []
  | subscript generic slice => generic.arguments ++ slice.names

/-- The names in a base: the base itself, with its qualifiers in front and its arguments behind. -/
theorem names_toExpr (b : BaseExpr) : b.toExpr.names = b.qualifiers ++ b.base :: b.arguments := by
  induction b with
  | name r => rfl
  | dotted qualifiers last =>
    have hall : ∀ rs : List NameRef, Expr.namesAll (rs.map .name) = rs := by
      intro rs
      induction rs with
      | nil => rfl
      | cons r rs ih => rw [List.map_cons, Expr.namesAll, ih, Expr.names, List.singleton_append]
    exact hall (qualifiers ++ [last])
  | subscript generic slice ih =>
    rw [toExpr, Expr.names, ih]
    simp [qualifiers, base, arguments]

end BaseExpr

namespace Project

variable (p : Project) {n : Node} {bases : List BaseExpr} {decorators : List Expr}

theorem basePaths_eq (hn : n.info.kind = .classType (bases.map BaseExpr.toExpr) decorators) :
    basePaths n = bases.flatMap fun b =>
      b.qualifiers.map NameRef.path ++ b.base.path :: b.arguments.map NameRef.path := by
  simp [basePaths, hn, Expr.collectNames_eq, List.flatMap_map, List.map_flatMap,
    BaseExpr.names_toExpr]

/-- The bases of a class are listed in order, each with the names in front of it and in its
brackets. They are all that is listed exactly if there are no such names. -/
theorem relations_classEntry
    (hn : n.info.kind = .classType (bases.map BaseExpr.toExpr) decorators) :
    (p.classEntry n).value.semantic.relations.get? "inherits" =
      some (bases.flatMap fun b =>
        b.qualifiers.map NameRef.path ++ b.base.path :: b.arguments.map NameRef.path) ∧
    ((p.classEntry n).value.semantic.relations.get? "inherits" =
        some (bases.map fun b => b.base.path) ↔
      ∀ b ∈ bases, b.qualifiers = [] ∧ b.arguments = []) := by
  have hlisted : (p.classEntry n).value.semantic.relations.get? "inherits" =
      some (bases.flatMap fun b =>
        b.qualifiers.map NameRef.path ++ b.base.path :: b.arguments.map NameRef.path) := by
    rw [← basePaths_eq hn]
    simp [classEntry, Semantic.withRelation]
  refine ⟨hlisted, ?_⟩
  rw [hlisted, Option.some.injEq]
  constructor
  · intro h b hb
    have hlength := congrArg List.length h
    rw [List.length_map] at hlength
    have hone := length_eq_one_of_length_flatMap (by simp) hlength b hb
    simpa [Nat.add_eq_one_iff] using hone
  · intro h
    rw [← List.flatMap_singleton' (bases.map fun b => b.base.path), List.flatMap_map]
    refine List.flatMap_congr fun b hb => ?_
    obtain ⟨hqualifiers, harguments⟩ := h b hb
    rw [hqualifiers, harguments]
    rfl

/-- For the class in `b`, whose base is a name, the base is all that is listed. -/
theorem packageWithNamesakes_base :
    ∃ s project, Snapshot.load packageWithNamesakes = .ok s ∧
      Project.build s { Settings.standard with useStandardLinks := false } = .ok project ∧
      (project.value.classEntry packageWithNamesakes.enumeration).value.semantic.relations.get?
        "inherits" = some ["enum.Enum"] := by
  refine ⟨⟨Node.ofDeclaration packageWithNamesakes⟩, _, rfl, rfl, ?_⟩
  have hkind : packageWithNamesakes.enumeration.info.kind =
      .classType ([BaseExpr.name ⟨"Enum", "enum.Enum"⟩].map BaseExpr.toExpr) [] := rfl
  refine (relations_classEntry _ hkind).2.mpr ?_
  rw [List.forall_mem_singleton]
  exact ⟨rfl, rfl⟩

/-- For the class in `core`, which has two bases, four paths are listed: those of the two classes,
of the file that the first one is in, and of the argument of the second one. -/
theorem packageWithNamesakes_more_than_bases :
    ∃ s project, Snapshot.load packageWithNamesakes = .ok s ∧
      Project.build s { Settings.standard with useStandardLinks := false } = .ok project ∧
      packageWithNamesakes.classNode.info.kind =
        .classType
          ([.dotted [⟨"a", "p.a"⟩] ⟨"Base", "p.a.Base"⟩,
            .subscript (.name ⟨"Generic", "typing.Generic"⟩) (.name ⟨"T", "p.core.T"⟩)].map
            BaseExpr.toExpr) [] ∧
      (project.value.classEntry packageWithNamesakes.classNode).value.semantic.relations.get?
        "inherits" = some ["p.a", "p.a.Base", "typing.Generic", "p.core.T"] ∧
      (project.value.classEntry packageWithNamesakes.classNode).value.semantic.relations.get?
        "inherits" ≠ some ["p.a.Base", "typing.Generic"] := by
  refine ⟨⟨Node.ofDeclaration packageWithNamesakes⟩, _, rfl, rfl, rfl, ?_, ?_⟩ <;> decide +kernel

end Project

end ApiPages
