import ApiPages.Expr.Json
import Mathlib.Data.List.Find
import Mathlib.Data.List.Nodup
import Mathlib.Data.List.Perm.Subperm

/-!
# Expressions in values

A value carries an expression in several ways: the fields of its kind are those of an object, in any
order and among other fields, or the elements of an array, and inside another expression the kind
may be a number. These ways are described here apart from the reader, and the reader takes exactly
them.

Results:

* `Expr.Tells`: the value tells a kind and the values of the fields of that kind.
* `Expr.Carries`: the value carries the expression, with whatever other fields.
* `Expr.ofValues?_eq_some_iff`: the values of the fields are read field by field, for all kinds at
  once.
* `Expr.ofJsonAt?_succ_eq_some_iff`: one level of reading.
* `Expr.ofJson?_eq_some_iff`: a readable value is read as the expressions it carries.
-/

namespace ApiPages

/-! ## Values in values -/

namespace Json

theorem depth_le_depthElements {x : Json} {xs : List Json} (hx : x ∈ xs) :
    x.depth ≤ depthElements xs := by
  induction xs with
  | nil => cases hx
  | cons y xs ih =>
    rw [depthElements]
    rcases List.mem_cons.mp hx with rfl | hx
    · exact le_max_left _ _
    · exact (ih hx).trans (le_max_right _ _)

theorem depth_le_depthFields {f : String × Json} {fs : List (String × Json)} (hf : f ∈ fs) :
    f.2.depth ≤ depthFields fs := by
  induction fs with
  | nil => cases hf
  | cons g fs ih =>
    rw [depthFields]
    rcases List.mem_cons.mp hf with rfl | hf
    · exact le_max_left _ _
    · exact (ih hf).trans (le_max_right _ _)

theorem asList?_eq_some_iff {α : Type} {read : Json → Option α} {j : Json} {xs : List α} :
    j.asList? read = some xs ↔
      ∃ js, j = .arr js ∧ List.Forall₂ (fun x k => read k = some x) xs js := by
  constructor
  · intro h
    unfold asList? at h
    split at h
    case h_1 js =>
      refine ⟨js, rfl, ?_⟩
      induction js generalizing xs with
      | nil =>
        cases h
        exact .nil
      | cons j js ih =>
        simp only [List.mapM_cons, Option.bind_eq_bind, Option.bind_eq_some_iff, Option.pure_def,
          Option.some.injEq] at h
        obtain ⟨x, hx, xs, hxs, rfl⟩ := h
        exact .cons hx (ih hxs)
    case h_2 => cases h
  · rintro ⟨js, rfl, h⟩
    rw [asList?]
    induction h with
    | nil => rfl
    | cons hx _ ih => rw [List.mapM_cons, hx, ih]; rfl

theorem asString?_eq_some_iff {j : Json} {s : String} : j.asString? = some s ↔ j = .str s := by
  cases j <;> simp [asString?]

end Json

theorem namesDistinct_iff {names : List String} : namesDistinct names = true ↔ names.Nodup := by
  induction names with
  | nil => simp [namesDistinct]
  | cons n ns ih => simp [namesDistinct, ih]

theorem forall₂_imp_of_mem {α β : Type} {R S : α → β → Prop} {xs : List α} {ys : List β}
    (h : List.Forall₂ R xs ys) (hRS : ∀ x, ∀ y ∈ ys, R x y → S x y) : List.Forall₂ S xs ys :=
  ((List.forall₂_and_left _ _).mpr ⟨fun _ hy => hy, h.flip⟩).flip.imp
    fun x y hxy => hRS x y hxy.1 hxy.2

/-- Fields in any order, by the order of their names. -/
theorem exists_perm_zip {names : List String} {fs : List (String × Json)}
    (h : names.Perm (fs.map Prod.fst)) :
    ∃ values, values.length = names.length ∧ fs.Perm (names.zip values) := by
  obtain ⟨gs, rfl, hperm⟩ := (congrFun₂ (List.eq_map_comp_perm Prod.fst) names fs).mpr h
  refine ⟨gs.map Prod.snd, by simp, ?_⟩
  rw [← List.zip_of_prod rfl rfl]
  exact hperm.symm

/-- A record with all its fields has them in any order in an object, or in order in an array. -/
theorem exists_values_of_record? {names : List String} {j : Json} {r : Record}
    (hnames : names.Nodup) (h : j.record? names = some r)
    (hall : ∀ name ∈ names, (r.get? name).isSome = true) :
    ∃ values, values.length = names.length ∧
      ((∃ fs, j = .obj fs ∧ (fs.filter fun f => names.contains f.1).Perm (names.zip values)) ∨
        j = .arr values) := by
  have hpresent : names ⊆ r.fields.map Prod.fst := by
    intro name hname
    have hsome := hall name hname
    rw [Record.get?, Option.isSome_map, List.find?_isSome] at hsome
    obtain ⟨f, hf, heq⟩ := hsome
    exact List.mem_map.mpr ⟨f, hf, beq_iff_eq.mp heq⟩
  unfold Json.record? at h
  split at h
  case h_1 fs =>
    simp only [namesDistinct_iff] at h
    split at h
    case isTrue hdistinct =>
      cases h
      have hperm : names.Perm ((fs.filter fun f => names.contains f.1).map Prod.fst) := by
        rw [List.perm_ext_iff_of_nodup hnames hdistinct]
        refine fun name => ⟨fun h => hpresent h, fun h => ?_⟩
        obtain ⟨f, hf, rfl⟩ := List.mem_map.mp h
        simpa using (List.mem_filter.mp hf).2
      obtain ⟨values, hlen, hfields⟩ := exists_perm_zip hperm
      exact ⟨values, hlen, .inl ⟨fs, rfl, hfields⟩⟩
    case isFalse => cases h
  case h_2 xs =>
    split at h
    case isTrue hle =>
      cases h
      have hlen := (hnames.subperm hpresent).length_le
      rw [List.length_map, List.length_zip] at hlen
      exact ⟨xs, by omega, .inr rfl⟩
    case isFalse => cases h
  case h_3 => cases h

namespace Expr

/-! ## Fields -/

/-- The names of the fields of a kind, in order. -/
def fieldNames : String → List String
  | "name" => ["name", "path"]
  | "attribute" => ["values"]
  | "subscript" => ["left", "slice"]
  | "tuple" => ["elements"]
  | "list" => ["elements"]
  | "binop" => ["left", "operator", "right"]
  | "call" => ["function", "arguments"]
  | "keyword" => ["name", "value"]
  | "constant" => ["value"]
  | _ => []

/-- What a field of an expression holds. -/
inductive FieldValue where
  | text (s : String)
  | expr (e : Expr)
  | exprs (es : List Expr)

open FieldValue in
/-- What the fields of an expression hold, in the order of their names. -/
def fieldValues : Expr → List FieldValue
  | .name n => [text n.spelling, text n.path]
  | .dotted es => [exprs es]
  | .subscript l s => [expr l, expr s]
  | .tuple es => [exprs es]
  | .list es => [exprs es]
  | .binop l o r => [expr l, text o, expr r]
  | .call f es => [expr f, exprs es]
  | .keyword n e => [text n, expr e]
  | .constant c => [text c]

theorem kindLabel_mem (e : Expr) : e.kindLabel ∈ kindLabels := by
  cases e <;> simp [kindLabel, kindLabels]

theorem length_fieldValues (e : Expr) :
    e.fieldValues.length = (fieldNames e.kindLabel).length := by
  cases e <;> rfl

theorem fieldNames_distinct {kind : String} (hkind : kind ∈ kindLabels) :
    (fieldNames kind).Nodup ∧ "kind" ∉ fieldNames kind := by
  revert kind
  decide

theorem mem_kindLabels_of_kindOf? {inside : Bool} {tag : Json} {kind : String}
    (h : kindOf? inside tag = some kind) : kind ∈ kindLabels := by
  unfold kindOf? at h
  split at h
  · split at h
    · cases h
      assumption
    · cases h
  · split at h
    · exact List.mem_of_getElem? h
    · cases h
  · cases h

/-! ## What carries an expression -/

/-- The value tells its kind and the values of the fields of that kind: an object has the tag and
each of the fields once, in any order and among other fields, and an array has nothing else. -/
inductive Tells (inside : Bool) (kind : String) (values : List Json) : Json → Prop
  | object {tag : Json} {fs : List (String × Json)} (htag : kindOf? inside tag = some kind)
      (htags : fs.filter (fun f => f.1 == "kind") = [("kind", tag)])
      (hfields : (fs.filter fun f => (fieldNames kind).contains f.1).Perm
        ((fieldNames kind).zip values)) :
      Tells inside kind values (.obj fs)
  | array {tag : Json} (htag : kindOf? inside tag = some kind) :
      Tells inside kind values (.arr (tag :: values))

mutual

/-- The value carries the expression. -/
inductive Carries : Bool → Expr → Json → Prop
  | intro {inside : Bool} {e : Expr} {values : List Json} {j : Json}
      (htells : Tells inside e.kindLabel values j)
      (hvalues : List.Forall₂ CarriesValue e.fieldValues values) : Carries inside e j

/-- The value of a field carries what the field holds. -/
inductive CarriesValue : FieldValue → Json → Prop
  | text (s : String) : CarriesValue (.text s) (.str s)
  | expr {e : Expr} {j : Json} (h : Carries true e j) : CarriesValue (.expr e) j
  | exprs {es : List Expr} {js : List Json} (h : List.Forall₂ (Carries true) es js) :
      CarriesValue (.exprs es) (.arr js)

end

theorem Tells.kind_mem {inside : Bool} {kind : String} {values : List Json} {j : Json}
    (h : Tells inside kind values j) : kind ∈ kindLabels := by
  cases h with
  | object htag | array htag => exact mem_kindLabels_of_kindOf? htag

/-! ## One level of reading -/

/-- The expression of a kind whose fields have these values, with `part` for the expressions in
them. -/
def ofValues? (part : Json → Option Expr) : String → List Json → Option Expr
  | "name", [n, p] => do return .name ⟨← n.asString?, ← p.asString?⟩
  | "attribute", [es] => do return .dotted (← es.asList? part)
  | "subscript", [l, s] => do return .subscript (← part l) (← part s)
  | "tuple", [es] => do return .tuple (← es.asList? part)
  | "list", [es] => do return .list (← es.asList? part)
  | "binop", [l, o, r] => do return .binop (← part l) (← o.asString?) (← part r)
  | "call", [f, es] => do return .call (← part f) (← es.asList? part)
  | "keyword", [n, e] => do return .keyword (← n.asString?) (← part e)
  | "constant", [c] => do return .constant (← c.asString?)
  | _, _ => none

/-- The value of a field is read as what the field holds. -/
def Reads (part : Json → Option Expr) (v : FieldValue) (j : Json) : Prop :=
  match v with
  | .text s => j.asString? = some s
  | .expr e => part j = some e
  | .exprs es => j.asList? part = some es

/-- Values are read as an expression iff they are those of its kind, field by field. -/
theorem ofValues?_eq_some_iff {part : Json → Option Expr} {kind : String} {values : List Json}
    {e : Expr} : ofValues? part kind values = some e ↔
      kind = e.kindLabel ∧ List.Forall₂ (Reads part) e.fieldValues values := by
  constructor
  · intro h
    unfold ofValues? at h
    split at h <;>
      simp only [Option.pure_def, Option.bind_eq_bind, Option.bind_eq_some_iff, Option.some.injEq,
        reduceCtorEq] at h
    case h_1 =>
      obtain ⟨n, hn, p, hp, rfl⟩ := h
      exact ⟨rfl, .cons hn (.cons hp .nil)⟩
    case h_2 | h_4 | h_5 =>
      obtain ⟨es, hes, rfl⟩ := h
      exact ⟨rfl, .cons hes .nil⟩
    case h_3 =>
      obtain ⟨l, hl, s, hs, rfl⟩ := h
      exact ⟨rfl, .cons hl (.cons hs .nil)⟩
    case h_6 =>
      obtain ⟨l, hl, o, ho, r, hr, rfl⟩ := h
      exact ⟨rfl, .cons hl (.cons ho (.cons hr .nil))⟩
    case h_7 =>
      obtain ⟨f, hf, es, hes, rfl⟩ := h
      exact ⟨rfl, .cons hf (.cons hes .nil)⟩
    case h_8 =>
      obtain ⟨n, hn, x, hx, rfl⟩ := h
      exact ⟨rfl, .cons hn (.cons hx .nil)⟩
    case h_9 =>
      obtain ⟨c, hc, rfl⟩ := h
      exact ⟨rfl, .cons hc .nil⟩
  · rintro ⟨rfl, h⟩
    cases e with
    | dotted es | tuple es | list es | constant c =>
      obtain _ | ⟨h₁, ⟨⟩⟩ := h
      simp only [Reads] at h₁
      simp [kindLabel, ofValues?, h₁]
    | name n | subscript l s | call f es | keyword n x =>
      obtain _ | ⟨h₁, _ | ⟨h₂, ⟨⟩⟩⟩ := h
      simp only [Reads] at h₁ h₂
      simp [kindLabel, ofValues?, h₁, h₂]
    | binop l o r =>
      obtain _ | ⟨h₁, _ | ⟨h₂, _ | ⟨h₃, ⟨⟩⟩⟩⟩ := h
      simp only [Reads] at h₁ h₂ h₃
      simp [kindLabel, ofValues?, h₁, h₂, h₃]

/-- The fields of a kind are not affected by taking the tag away. -/
theorem filter_fieldNames {kind : String} (hkind : kind ∈ kindLabels)
    (fs : List (String × Json)) :
    ((fs.filter fun f => f.1 != "kind").filter fun f => (fieldNames kind).contains f.1) =
      fs.filter fun f => (fieldNames kind).contains f.1 := by
  rw [List.filter_filter]
  refine List.filter_congr fun f _ => ?_
  by_cases hf : f.1 = "kind"
  · simp [hf, (fieldNames_distinct hkind).2]
  · simp [hf]

theorem Tells.exists_record {inside : Bool} {kind : String} {values : List Json} {j : Json}
    (h : Tells inside kind values j) (hlen : values.length = (fieldNames kind).length) :
    ∃ rest r, tagged? inside j = some (kind, rest) ∧ rest.record? (fieldNames kind) = some r ∧
      ∀ name, r.get? name = Record.get? ⟨(fieldNames kind).zip values, true⟩ name := by
  cases h with
  | @array tag htag =>
    exact ⟨.arr values, ⟨(fieldNames kind).zip values, true⟩, by simp [tagged?, htag],
      by simp [Json.record?, hlen], fun _ => rfl⟩
  | @object tag fs htag htags hfields =>
    have hkind := mem_kindLabels_of_kindOf? htag
    have hdistinct : ((fs.filter fun f => (fieldNames kind).contains f.1).map Prod.fst).Nodup := by
      rw [(hfields.map Prod.fst).nodup_iff, List.map_fst_zip (by omega)]
      exact (fieldNames_distinct hkind).1
    have htagged : tagged? inside (.obj fs) =
        some (kind, .obj (fs.filter fun f => f.1 != "kind")) := by
      simp [tagged?, htags, htag]
    have hrecord : (Json.obj (fs.filter fun f => f.1 != "kind")).record? (fieldNames kind) =
        some ⟨fs.filter fun f => (fieldNames kind).contains f.1, false⟩ := by
      simp only [Json.record?, filter_fieldNames hkind]
      exact if_pos (namesDistinct_iff.mpr hdistinct)
    refine ⟨_, _, htagged, hrecord, fun name => ?_⟩
    rw [Record.get?, Record.get?, List.find?_eq_find?_of_perm hfields]
    rintro f ⟨hf, hfname⟩ g ⟨hg, hgname⟩
    exact List.inj_on_of_nodup_map hdistinct hf hg
      ((beq_iff_eq.mp hfname).trans (beq_iff_eq.mp hgname).symm)

/-- The kind is the only field of an object that is named so, or the first element of an array. -/
theorem exists_tag_of_tagged? {inside : Bool} {kind : String} {j rest : Json}
    (h : tagged? inside j = some (kind, rest)) : ∃ tag, kindOf? inside tag = some kind ∧
      ((∃ fs, j = .obj fs ∧ fs.filter (fun f => f.1 == "kind") = [("kind", tag)] ∧
          rest = .obj (fs.filter fun f => f.1 != "kind")) ∨
        ∃ xs, j = .arr (tag :: xs) ∧ rest = .arr xs) := by
  unfold tagged? at h
  split at h
  case h_1 fs =>
    split at h
    case h_1 name tag htags =>
      obtain ⟨_, htag, heq⟩ := Option.map_eq_some_iff.mp h
      cases heq
      obtain rfl : name = "kind" := by
        have hmem : (name, tag) ∈ fs.filter fun f => f.1 == "kind" := by simp [htags]
        exact beq_iff_eq.mp (List.mem_filter.mp hmem).2
      exact ⟨tag, htag, .inl ⟨fs, rfl, htags, rfl⟩⟩
    case h_2 => cases h
  case h_2 tag xs =>
    obtain ⟨_, htag, heq⟩ := Option.map_eq_some_iff.mp h
    cases heq
    exact ⟨tag, htag, .inr ⟨xs, rfl, rfl⟩⟩
  case h_3 => cases h

/-- What is read as a record with all its fields tells their values. -/
theorem exists_tells {inside : Bool} {kind : String} {j rest : Json} {r : Record}
    (htagged : tagged? inside j = some (kind, rest))
    (hrecord : rest.record? (fieldNames kind) = some r)
    (hall : ∀ name ∈ fieldNames kind, (r.get? name).isSome = true) :
    ∃ values, values.length = (fieldNames kind).length ∧ Tells inside kind values j := by
  obtain ⟨tag, htag, hrest⟩ := exists_tag_of_tagged? htagged
  have hkind := mem_kindLabels_of_kindOf? htag
  obtain ⟨values, hlen, hvalues⟩ :=
    exists_values_of_record? (fieldNames_distinct hkind).1 hrecord hall
  refine ⟨values, hlen, ?_⟩
  obtain ⟨fs, rfl, htags, rfl⟩ | ⟨xs, rfl, rfl⟩ := hrest
  · obtain ⟨gs, heq, hperm⟩ | heq := hvalues
    · cases heq
      rw [filter_fieldNames hkind] at hperm
      exact .object htag htags hperm
    · cases heq
  · obtain ⟨gs, heq, hperm⟩ | heq := hvalues
    · cases heq
    · cases heq
      exact .array htag

theorem ofJsonAt?_of_tells {inside : Bool} {fuel : Nat} {kind : String} {values : List Json}
    {j : Json} (h : Tells inside kind values j)
    (hlen : values.length = (fieldNames kind).length) :
    ofJsonAt? inside (fuel + 1) j = ofValues? (ofJsonAt? true fuel) kind values := by
  have hkind := h.kind_mem
  obtain ⟨rest, r, htag, hrecord, hget⟩ := h.exists_record hlen
  rw [ofJsonAt?, htag]
  simp only [kindLabels, List.mem_cons, List.not_mem_nil, or_false] at hkind
  rcases hkind with rfl | rfl | rfl | rfl | rfl | rfl | rfl | rfl | rfl
  all_goals
    first
    | obtain ⟨a, rfl⟩ := List.length_eq_one_iff.mp hlen
    | obtain ⟨a, b, rfl⟩ := List.length_eq_two.mp hlen
    | obtain ⟨a, b, c, rfl⟩ := List.length_eq_three.mp hlen
    simp only [fieldNames] at hrecord hget
    simp only [Option.bind_eq_bind, Option.bind_some, hrecord, Record.required, hget]
    simp [Record.get?, ofValues?]

/-- What is read as an expression is a record with all fields of its kind. -/
theorem exists_record_of_ofJsonAt? {inside : Bool} {fuel : Nat} {j : Json} {e : Expr}
    (h : ofJsonAt? inside (fuel + 1) j = some e) :
    ∃ kind rest r, tagged? inside j = some (kind, rest) ∧
      rest.record? (fieldNames kind) = some r ∧
      ∀ name ∈ fieldNames kind, (r.get? name).isSome = true := by
  rw [ofJsonAt?] at h
  obtain ⟨⟨kind, rest⟩, htag, h⟩ := Option.bind_eq_some_iff.mp h
  refine ⟨kind, rest, ?_⟩
  dsimp only at h
  split at h
  case h_10 => cases h
  all_goals
    obtain ⟨r, hr, h⟩ := Option.bind_eq_some_iff.mp h
    refine ⟨r, htag, hr, ?_⟩
    simp only [Record.required, Option.bind_eq_bind, Option.bind_eq_some_iff] at h
    simp only [fieldNames, List.forall_mem_cons, List.not_mem_nil, false_imp_iff, implies_true,
      and_true, Option.isSome_iff_exists]
    grind

/-- One level of reading: what is read as an expression tells its kind and its fields. -/
theorem ofJsonAt?_succ_eq_some_iff {inside : Bool} {fuel : Nat} {j : Json} {e : Expr} :
    ofJsonAt? inside (fuel + 1) j = some e ↔
      ∃ values, Tells inside e.kindLabel values j ∧
        List.Forall₂ (Reads (ofJsonAt? true fuel)) e.fieldValues values := by
  constructor
  · intro h
    obtain ⟨kind, rest, r, htagged, hrecord, hall⟩ := exists_record_of_ofJsonAt? h
    obtain ⟨values, hlen, htells⟩ := exists_tells htagged hrecord hall
    rw [ofJsonAt?_of_tells htells hlen, ofValues?_eq_some_iff] at h
    obtain ⟨rfl, hreads⟩ := h
    exact ⟨values, htells, hreads⟩
  · rintro ⟨values, htells, hreads⟩
    have hlen := hreads.length_eq.symm.trans e.length_fieldValues
    rw [ofJsonAt?_of_tells htells hlen, ofValues?_eq_some_iff]
    exact ⟨rfl, hreads⟩

/-! ## Reading and carrying -/

theorem Tells.depth_lt {inside : Bool} {kind : String} {values : List Json} {j v : Json}
    (h : Tells inside kind values j) (hlen : values.length = (fieldNames kind).length)
    (hv : v ∈ values) : v.depth < j.depth := by
  cases h with
  | @array tag htag =>
    have := Json.depth_le_depthElements (List.mem_cons_of_mem tag hv)
    rw [Json.depth]
    omega
  | @object tag fs htag htags hfields =>
    have hmap : ((fieldNames kind).zip values).map Prod.snd = values := List.map_snd_zip (by omega)
    rw [← hmap] at hv
    obtain ⟨f, hf, rfl⟩ := List.mem_map.mp hv
    have hmem := hfields.symm.subset hf
    have := Json.depth_le_depthFields (List.mem_filter.mp hmem).1
    rw [Json.depth]
    omega

/-- What carries an expression is read as it. -/
theorem ofJsonAt?_of_carries {inside : Bool} {fuel : Nat} {e : Expr} {j : Json}
    (h : Carries inside e j) (hfuel : j.depth < fuel) : ofJsonAt? inside fuel j = some e := by
  induction fuel generalizing inside e j with
  | zero => omega
  | succ fuel ih =>
    obtain @⟨_, _, values, _, htells, hvalues⟩ := h
    have hlen := hvalues.length_eq.symm.trans e.length_fieldValues
    refine ofJsonAt?_succ_eq_some_iff.mpr ⟨values, htells, ?_⟩
    refine forall₂_imp_of_mem hvalues fun v w hmem hw => ?_
    have hlt := htells.depth_lt hlen hmem
    cases hw with
    | text s => rfl
    | expr hw => exact ih hw (by omega)
    | exprs hjs =>
      refine Json.asList?_eq_some_iff.mpr ⟨_, rfl, forall₂_imp_of_mem hjs fun x k hk hx => ?_⟩
      have hle := Json.depth_le_depthElements hk
      rw [Json.depth] at hlt
      exact ih hx (by omega)

/-- What is read as an expression carries it. -/
theorem carries_of_ofJsonAt? {inside : Bool} {fuel : Nat} {e : Expr} {j : Json}
    (h : ofJsonAt? inside fuel j = some e) : Carries inside e j := by
  induction fuel generalizing inside e j with
  | zero => cases h
  | succ fuel ih =>
    obtain ⟨values, htells, hreads⟩ := ofJsonAt?_succ_eq_some_iff.mp h
    refine .intro htells (hreads.imp fun v w hw => ?_)
    cases v with
    | text s =>
      cases Json.asString?_eq_some_iff.mp hw
      exact .text s
    | expr x => exact .expr (ih hw)
    | exprs es =>
      obtain ⟨js, rfl, hjs⟩ := Json.asList?_eq_some_iff.mp hw
      exact .exprs (hjs.imp fun _ _ hx => ih hx)

/-- A value is read as an expression iff all of it is readable and it carries the expression. -/
theorem ofJson?_eq_some_iff {j : Json} {e : Expr} :
    ofJson? j = some e ↔ j.isReadable = true ∧ Carries false e j := by
  rw [ofJson?]
  split
  case isTrue hj =>
    exact ⟨fun h => ⟨hj, carries_of_ofJsonAt? h⟩,
      fun h => ofJsonAt?_of_carries h.2 (Nat.lt_succ_self _)⟩
  case isFalse hj => simp [hj]

end Expr

end ApiPages
