import ApiPages.Proofs.ExprParts
import ApiPages.Proofs.ExprReading

/-!
# Expressions read back

An expression is written as an object of its kind and the fields of that kind, and so are the
expressions in it. What is written carries the expression, so it is read as it, and of the values
that are read as the expression it is the only one without other fields.

Results:

* `Expr.carries_toJson`: what is written of an expression carries it.
* `Expr.eq_toJson_of_ofJsonAt?`: only one value without other fields is read as an expression.
* `Expr.encoding_round_trips`: what is written of an expression is read as it, has no other fields
  at any level, and is all that is kept of a value that was read.
-/

namespace ApiPages

theorem map_eq_of_forall₂ {α β : Type} {R : α → β → Prop} {f : α → β} {xs : List α} {ys : List β}
    (h : List.Forall₂ R xs ys) (hf : ∀ x, ∀ y ∈ ys, R x y → y = f x) : xs.map f = ys := by
  rw [← List.forall₂_eq_eq_eq, List.forall₂_map_left_iff]
  exact forall₂_imp_of_mem h fun x y hy hxy => (hf x y hy hxy).symm

namespace Json

theorem areReadable_iff {xs : List Json} :
    areReadable xs = true ↔ ∀ x ∈ xs, x.isReadable = true := by
  induction xs with
  | nil => simp [areReadable]
  | cons x xs ih => simp [areReadable, ih]

theorem fieldsReadable_iff {fs : List (String × Json)} :
    fieldsReadable fs = true ↔ ∀ f ∈ fs, f.2.isReadable = true := by
  induction fs with
  | nil => simp [fieldsReadable]
  | cons f fs ih => rw [fieldsReadable, Bool.and_eq_true, ih, List.forall_mem_cons]

end Json

namespace Expr

/-! ## The form that is written -/

namespace FieldValue

/-- The expressions in a field. -/
def parts : FieldValue → List Expr
  | text _ => []
  | expr e => [e]
  | exprs es => es

/-- The value that is written of a field. -/
def toJson : FieldValue → Json
  | text s => .str s
  | expr e => e.toJson
  | exprs es => .arr (es.map Expr.toJson)

end FieldValue

theorem parts_eq (e : Expr) : e.parts = e.fieldValues.flatMap FieldValue.parts := by
  cases e <;> simp [parts, fieldValues, FieldValue.parts]

/-- An object of a kind: the tag and the fields of the kind, and nothing else. -/
def object (kind : String) (values : List Json) : Json :=
  .obj (("kind", .str kind) :: (fieldNames kind).zip values)

theorem toJsonAll_eq (es : List Expr) : toJsonAll es = es.map toJson := by
  induction es with
  | nil => rfl
  | cons e es ih => rw [toJsonAll, ih, List.map_cons]

theorem toJson_eq (e : Expr) :
    e.toJson = object e.kindLabel (e.fieldValues.map FieldValue.toJson) := by
  cases e <;> simp [toJson, toJsonAll_eq] <;> rfl

theorem tells_object (inside : Bool) {kind : String} (hkind : kind ∈ kindLabels)
    (values : List Json) : Tells inside kind values (object kind values) := by
  have hnames : ∀ f ∈ (fieldNames kind).zip values, f.1 ∈ fieldNames kind := fun f hf =>
    (List.of_mem_zip hf).1
  have hother := (fieldNames_distinct hkind).2
  have htag : kindOf? inside (.str kind) = some kind := by simp [kindOf?, hkind]
  refine .object htag ?_ (.of_eq ?_)
  · rw [List.filter_cons_of_pos rfl, List.cons_eq_cons, List.filter_eq_nil_iff]
    refine ⟨rfl, fun f hf heq => hother ?_⟩
    exact beq_iff_eq.mp heq ▸ hnames f hf
  · rw [List.filter_cons_of_neg (by simpa using hother), List.filter_eq_self]
    exact fun f hf => List.contains_iff_mem.mpr (hnames f hf)

/-- What passes from the expressions in the fields to the expression holds of every expression. -/
theorem induct_fields {motive : Expr → Prop}
    (step : ∀ e, (∀ v ∈ e.fieldValues, ∀ x ∈ v.parts, motive x) → motive e) (e : Expr) :
    motive e := by
  induction e using induct with
  | step e ih =>
    refine step e fun v hv x hx => ih x ?_
    rw [parts_eq]
    exact List.mem_flatMap.mpr ⟨v, hv, hx⟩

/-- What is written of an expression carries it. -/
theorem carries_toJson (e : Expr) (inside : Bool) : Carries inside e e.toJson := by
  induction e using induct_fields generalizing inside with
  | step e ih =>
    rw [toJson_eq]
    refine .intro (tells_object inside e.kindLabel_mem _) ?_
    rw [List.forall₂_map_right_iff, List.forall₂_same]
    intro v hv
    have hparts : ∀ x ∈ v.parts, Carries true x x.toJson := fun x hx => ih v hv x hx true
    cases v with
    | text s => exact .text s
    | expr x => exact .expr (hparts x List.mem_cons_self)
    | exprs es =>
      refine .exprs ?_
      rw [List.forall₂_map_right_iff, List.forall₂_same]
      exact hparts

theorem isReadable_toJson (e : Expr) : e.toJson.isReadable = true := by
  induction e using induct_fields with
  | step e ih =>
    rw [toJson_eq, object, Json.isReadable, Json.fieldsReadable_iff]
    intro f hf
    rcases List.mem_cons.mp hf with rfl | hf
    · rfl
    · obtain ⟨v, hv, hf⟩ := List.mem_map.mp (List.of_mem_zip hf).2
      have hparts := ih v hv
      rw [← hf]
      cases v with
      | text s => rfl
      | expr x => exact hparts x List.mem_cons_self
      | exprs es =>
        rw [FieldValue.toJson, Json.isReadable, Json.areReadable_iff]
        exact List.forall_mem_map.mpr hparts

/-! ## Values without other fields -/

mutual

/-- The value is an object of a kind, with the fields of that kind and no others at every level. -/
inductive IsBare : Json → Prop
  | object {kind : String} {values : List Json} (hkind : kind ∈ kindLabels)
      (hlen : values.length = (fieldNames kind).length) (hvalues : ∀ v ∈ values, IsBareValue v) :
      IsBare (object kind values)

/-- The value of a field is a text, an object without other fields, or an array of these. -/
inductive IsBareValue : Json → Prop
  | text (s : String) : IsBareValue (.str s)
  | expr {j : Json} (h : IsBare j) : IsBareValue j
  | exprs {js : List Json} (h : ∀ j ∈ js, IsBare j) : IsBareValue (.arr js)

end

theorem isBare_toJson (e : Expr) : IsBare e.toJson := by
  induction e using induct_fields with
  | step e ih =>
    rw [toJson_eq]
    refine .object e.kindLabel_mem (by rw [List.length_map, length_fieldValues]) ?_
    rw [List.forall_mem_map]
    intro v hv
    have hparts := ih v hv
    cases v with
    | text s => exact .text s
    | expr x => exact .expr (hparts x List.mem_cons_self)
    | exprs es => exact .exprs (List.forall_mem_map.mpr hparts)

theorem isBare_of_ofJsonAt? {inside : Bool} {fuel : Nat} {j : Json} {e : Expr}
    (hj : IsBareValue j) (h : ofJsonAt? inside fuel j = some e) : IsBare j := by
  cases fuel with
  | zero => cases h
  | succ fuel =>
    cases hj with
    | text s => cases h
    | expr hj => exact hj
    | @exprs js hjs =>
      -- an array would have its tag for the first element
      cases js with
      | nil => cases h
      | cons x xs =>
        cases hjs x List.mem_cons_self
        cases h

/-- Values without other fields that are read as the value of a field are what is written of it. -/
theorem eq_toJson_of_reads {part : Json → Option Expr} {v : FieldValue} {j : Json}
    (hpart : ∀ {j e}, IsBareValue j → part j = some e → j = e.toJson) (hj : IsBareValue j)
    (h : Reads part v j) : v.toJson = j := by
  cases v with
  | text s => exact (Json.asString?_eq_some_iff.mp h).symm
  | expr e => exact (hpart hj h).symm
  | exprs es =>
    obtain ⟨js, rfl, hjs⟩ := Json.asList?_eq_some_iff.mp h
    cases hj with
    | expr hj => cases hj
    | exprs hbare =>
      rw [FieldValue.toJson, map_eq_of_forall₂ hjs fun e k hk h => hpart (.expr (hbare k hk)) h]

/-- A value without other fields that is read as an expression is what is written of it. -/
theorem eq_toJson_of_ofJsonAt? {inside : Bool} {fuel : Nat} {j : Json} {e : Expr}
    (hj : IsBareValue j) (h : ofJsonAt? inside fuel j = some e) : j = e.toJson := by
  induction fuel generalizing inside j e with
  | zero => cases h
  | succ fuel ih =>
    obtain @⟨kind, values, hkind, hlen, hvalues⟩ := isBare_of_ofJsonAt? hj h
    rw [ofJsonAt?_of_tells (tells_object inside hkind values) hlen,
      ofValues?_eq_some_iff] at h
    obtain ⟨rfl, h⟩ := h
    rw [toJson_eq, map_eq_of_forall₂ h fun v w hw h =>
      (eq_toJson_of_reads (fun hj h => ih hj h) (hvalues w hw) h).symm]

/-- Expressions are read back. What is written of an expression is read as it. Whatever an
expression was read from, what is written of it is read as the same expression, has no other fields
at any level, and is the only such value that is. A value is read as an expression iff all of it is
readable and it carries the expression, with whatever other fields at any level. -/
theorem encoding_round_trips :
    (∀ e : Expr, ofJson? e.toJson = some e) ∧
    (∀ (j : Json) (e : Expr), ofJson? j = some e →
      ofJson? e.toJson = some e ∧ IsBare e.toJson ∧
        ∀ k, IsBare k → ofJson? k = some e → k = e.toJson) ∧
    ∀ (j : Json) (e : Expr), ofJson? j = some e ↔ j.isReadable = true ∧ Carries false e j := by
  have hread : ∀ e : Expr, ofJson? e.toJson = some e := fun e =>
    ofJson?_eq_some_iff.mpr ⟨e.isReadable_toJson, e.carries_toJson false⟩
  refine ⟨hread, fun j e _ => ⟨hread e, e.isBare_toJson, fun k hk h => ?_⟩,
    fun j e => ofJson?_eq_some_iff⟩
  rw [ofJson?] at h
  split at h
  · exact eq_toJson_of_ofJsonAt? (.expr hk) h
  · cases h

/-- A name with its kind as a number and a line number, and a literal as an array. -/
def annotatedElements : Json :=
  .arr [
    .obj [("kind", .nat 0), ("lineno", .nat 3), ("name", .str "X"), ("path", .str "p.X")],
    .arr [.str "constant", .str "1"]]

/-- A tuple of these with a note. -/
def annotatedTuple : Json :=
  .obj [("note", .null), ("kind", .str "tuple"), ("elements", annotatedElements)]

/-- The tuple is read without the note and the line number, and then written without them. -/
theorem annotatedTuple_read_back :
    let e : Expr := .tuple [.name ⟨"X", "p.X"⟩, .constant "1"]
    annotatedTuple.isReadable = true ∧ Carries false e annotatedTuple ∧
      ofJson? annotatedTuple = some e ∧ ofJson? e.toJson = some e ∧ IsBare e.toJson ∧
      ∀ k, IsBare k → ofJson? k = some e → k = e.toJson := by
  intro e
  have hname : Carries true (.name ⟨"X", "p.X"⟩)
      (.obj [("kind", .nat 0), ("lineno", .nat 3), ("name", .str "X"), ("path", .str "p.X")]) :=
    .intro (.object rfl rfl (.refl _)) (.cons (.text _) (.cons (.text _) .nil))
  have hliteral : Carries true (.constant "1") (.arr [.str "constant", .str "1"]) :=
    .intro (.array rfl) (.cons (.text _) .nil)
  have htells : Tells false "tuple" [annotatedElements] annotatedTuple :=
    .object rfl rfl (.refl _)
  have hcarries : Carries false e annotatedTuple :=
    .intro htells (.cons (.exprs (.cons hname (.cons hliteral .nil))) .nil)
  have hread := (encoding_round_trips.2.2 annotatedTuple e).mpr ⟨rfl, hcarries⟩
  exact ⟨rfl, hcarries, hread, encoding_round_trips.2.1 annotatedTuple e hread⟩

end Expr

end ApiPages
