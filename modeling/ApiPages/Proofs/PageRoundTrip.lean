import ApiPages.Page.Json
import ApiPages.Proofs.DictLaws
import ApiPages.Proofs.JsonText

/-!
# Pages read back

A page is written as JSON and read back from the text. What is written of a record is the list of
its fields in a fixed order, and the reader finds every field under its name again. So each part of
a page is read back, from the semantic of a section up to the page.

Results:

* `Json.Inverts`: a reader gives back what was written, and what was written can be printed.
* `Json.Inverts.list`, `Json.Inverts.dict`: lists and dictionaries of what is read back.
* `Page.ofText?_pretty`: the text of a page is read as the page.
-/

namespace ApiPages

namespace Json

variable {α : Type}

/-- The reader gives back what was written, and what was written can be printed. -/
structure Inverts (read : Json → Option α) (write : α → Json) : Prop where
  read_write : ∀ a, read (write a) = some a
  plain : ∀ a, (write a).Plain

/-! ## Values -/

namespace Inverts

theorem string : Inverts asString? .str := ⟨fun _ => rfl, .str⟩

theorem bool : Inverts asBool? .bool := ⟨fun _ => rfl, .bool⟩

theorem stringOrNull : Inverts (asOption? asString?) ofOption where
  read_write o := by cases o <;> rfl
  plain o := by
    cases o with
    | none => exact .null
    | some s => exact .str s

theorem lineOrNull : Inverts (asOption? asLine?) lineJson where
  read_write o := by
    cases o with
    | none => rfl
    | some n => simp [lineJson, asOption?, asLine?, n.toNat_lt_size]
  plain o := by
    cases o with
    | none => exact .null
    | some n =>
      have hlen : (digits n.toNat).length ≤ 10 :=
        (Nat.length_toDigits_le_iff (by decide) (by decide)).mpr (by have := n.toNat_lt; omega)
      exact .nat (by omega)

variable {read : Json → Option α} {write : α → Json}

/-- Lists are read back if their elements are. -/
theorem list (h : Inverts read write) : Inverts (asList? read) fun xs => .arr (xs.map write) where
  read_write xs := by
    rw [asList?]
    induction xs with
    | nil => rfl
    | cons x xs ih => simp [h.read_write, ih]
  plain xs := by
    refine .arr fun j hj => ?_
    obtain ⟨x, -, rfl⟩ := List.mem_map.mp hj
    exact h.plain x

theorem strings : Inverts asStrings? Json.strings := string.list

/-- Dictionaries are read back if their values are. -/
theorem dict (h : Inverts read write) :
    Inverts (asDict? read) fun d => .obj (d.entries.map fun e => (e.1, write e.2)) where
  read_write d := by
    have hentries : ∀ es : List (String × α), (es.map fun e => (e.1, write e.2)).mapM
        (fun f => (read f.2).map fun v => (f.1, v)) = some es := by
      intro es
      induction es with
      | nil => rfl
      | cons e es ih => simp [h.read_write, ih]
    rw [asDict?, hentries, Option.map_some, Dict.ofList_entries]
  plain d := by
    refine .obj fun f hf => ?_
    obtain ⟨e, -, rfl⟩ := List.mem_map.mp hf
    exact h.plain e.2

end Inverts

/-! ## Records -/

/-- The fields of a record are found again. -/
theorem record?_zip {names : List String} (h : namesDistinct names = true) {vs : List Json}
    (hlen : vs.length = names.length) :
    (Json.obj (names.zip vs)).record? names = some ⟨names.zip vs, false⟩ := by
  have hknown : (names.zip vs).filter (fun f => names.contains f.1) = names.zip vs := by
    apply List.filter_eq_self.mpr
    rintro ⟨name, v⟩ hf
    exact List.contains_iff_mem.mpr (List.of_mem_zip hf).1
  have hnames : (names.zip vs).map Prod.fst = names := List.map_fst_zip (by omega)
  rw [record?, hknown, hnames, if_pos h]

theorem Plain.zip (names : List String) {vs : List Json} (h : ∀ v ∈ vs, v.Plain) :
    (Json.obj (names.zip vs)).Plain :=
  .obj fun _ hf => h _ (List.of_mem_zip hf).2

end Json

/-! ## Parts of pages -/

open Json (Inverts Plain)

theorem Semantic.inverts : Inverts ofJson? toJson where
  read_write s := by
    rw [ofJson?, toJson, Json.record?_zip (by decide) rfl]
    simp [Record.required, Record.get?, fieldNames, Inverts.string.read_write,
      Inverts.strings.read_write, Inverts.stringOrNull.dict.read_write,
      Inverts.strings.dict.read_write]
  plain s := by
    apply Plain.zip
    simp [Plain.str, Inverts.strings.plain, Inverts.stringOrNull.dict.plain,
      Inverts.strings.dict.plain]

theorem DocText.inverts : Inverts ofJson? toJson where
  read_write d := by
    have htype : (Json.str contentType).asUnitCase? [contentType] = some contentType := rfl
    rw [ofJson?, toJson, Json.record?_zip (by decide) rfl]
    simp [Record.required, Record.optional, Record.get?, fieldNames, Inverts.string.read_write,
      Inverts.stringOrNull.read_write, htype, Inverts.read_write Semantic.inverts]
  plain d := by
    apply Plain.zip
    simp [Plain.str, Inverts.stringOrNull.plain, Inverts.plain Semantic.inverts]

theorem Documentation.inverts : Inverts ofJson? toJson where
  read_write d := by
    rw [ofJson?, toJson, Json.record?_zip (by decide) rfl]
    simp [Record.required, Record.get?, fieldNames, (Inverts.list DocText.inverts).read_write]
  plain d := by
    apply Plain.zip
    simp [(Inverts.list DocText.inverts).plain]

theorem Code.inverts : Inverts ofJson? toJson where
  read_write c := by
    rw [ofJson?, toJson, Json.record?_zip (by decide) rfl]
    simp [Record.required, Record.optional, Record.get?, fieldNames, Inverts.string.read_write,
      Inverts.lineOrNull.read_write, Inverts.stringOrNull.read_write,
      Inverts.stringOrNull.dict.read_write]
  plain c := by
    apply Plain.zip
    simp [Plain.str, Inverts.lineOrNull.plain, Inverts.stringOrNull.plain,
      Inverts.stringOrNull.dict.plain]

theorem AttributeEntry.inverts : Inverts ofJson? toJson where
  read_write a := by
    rw [ofJson?, toJson, Json.record?_zip (by decide) rfl]
    simp [Record.required, Record.get?, fieldNames, Inverts.string.read_write,
      Inverts.read_write Semantic.inverts, Inverts.read_write Documentation.inverts,
      Inverts.read_write Code.inverts]
  plain a := by
    apply Plain.zip
    simp [Plain.str, Inverts.plain Semantic.inverts, Inverts.plain Documentation.inverts,
      Inverts.plain Code.inverts]

theorem CallableEntry.inverts : Inverts ofJson? toJson where
  read_write c := by
    rw [ofJson?, toJson, Json.record?_zip (by decide) rfl]
    simp [Record.required, Record.get?, fieldNames, Inverts.string.read_write,
      Inverts.read_write Semantic.inverts, Inverts.read_write Documentation.inverts,
      Inverts.read_write Code.inverts]
  plain c := by
    apply Plain.zip
    simp [Plain.str, Inverts.plain Semantic.inverts, Inverts.plain Documentation.inverts,
      Inverts.plain Code.inverts]

theorem ClassEntry.inverts : Inverts ofJson? toJson where
  read_write c := by
    rw [ofJson?, toJson, Json.record?_zip (by decide) rfl]
    simp [Record.required, Record.get?, fieldNames, Inverts.string.read_write,
      Inverts.read_write Semantic.inverts, Inverts.read_write Documentation.inverts,
      Inverts.read_write Code.inverts, (Inverts.list AttributeEntry.inverts).read_write,
      (Inverts.list CallableEntry.inverts).read_write]
  plain c := by
    apply Plain.zip
    simp [Plain.str, Inverts.plain Semantic.inverts, Inverts.plain Documentation.inverts,
      Inverts.plain Code.inverts, (Inverts.list AttributeEntry.inverts).plain,
      (Inverts.list CallableEntry.inverts).plain]

theorem ChildEntry.inverts : Inverts ofJson? toJson where
  read_write c := by
    rw [ofJson?, toJson, Json.record?_zip (by decide) rfl]
    simp [Record.required, Record.get?, fieldNames, Inverts.string.read_write,
      Inverts.bool.read_write]
  plain c := by
    apply Plain.zip
    simp [Plain.str, Plain.bool]

theorem FileEntry.inverts : Inverts ofJson? toJson where
  read_write f := by
    rw [ofJson?, toJson, Json.record?_zip (by decide) rfl]
    simp [Record.required, Record.get?, fieldNames, Inverts.string.read_write,
      Inverts.read_write Documentation.inverts]
  plain f := by
    apply Plain.zip
    simp [Plain.str, Inverts.plain Documentation.inverts]

/-! ## Pages -/

namespace Page

theorem inverts : Inverts ofJson? toJson where
  read_write p := by
    rw [ofJson?, toJson, Json.record?_zip (by decide) rfl]
    simp [Record.required, Record.get?, fieldNames, Inverts.string.read_write,
      Inverts.read_write Semantic.inverts, (Inverts.list ChildEntry.inverts).read_write,
      (Inverts.list AttributeEntry.inverts).read_write,
      (Inverts.list ClassEntry.inverts).read_write, (Inverts.list CallableEntry.inverts).read_write,
      (Inverts.list FileEntry.inverts).read_write, Inverts.read_write Documentation.inverts]
  plain p := by
    apply Plain.zip
    simp [Plain.str, Inverts.plain Semantic.inverts, (Inverts.list ChildEntry.inverts).plain,
      (Inverts.list AttributeEntry.inverts).plain, (Inverts.list ClassEntry.inverts).plain,
      (Inverts.list CallableEntry.inverts).plain, (Inverts.list FileEntry.inverts).plain,
      Inverts.plain Documentation.inverts]

/-- The text of a page is read as the page: the text of its file, with four blanks a level, and the
text of a response, with two blanks a level and a line feed at the end. -/
theorem ofText?_pretty (p : Page) :
    ofText? (p.toJson.pretty 4) = some p ∧ ofText? (p.toJson.pretty 2 ++ "\n") = some p := by
  have hfile := (Json.parse?_pretty (inverts.plain p) 4).1
  have hresponse := (Json.parse?_pretty (inverts.plain p) 2).2
  constructor
  · rw [ofText?, hfile, Option.bind_some, inverts.read_write]
  · rw [ofText?, hresponse, Option.bind_some, inverts.read_write]

end Page

end ApiPages
