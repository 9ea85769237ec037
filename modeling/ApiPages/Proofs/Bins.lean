import ApiPages.Diagnostics.Basic
import ApiPages.Proofs.DictLaws

/-!
# What the bins hold

Findings are recorded one after the other, and the diagnostics of one page are merged into those of
the run. Both come to the same: a bin holds what was in it and what the findings put there.

Results:

* `Diagnostics.contains_recordAll`, `Diagnostics.unresolvedLinks_recordAll`: the bins after findings
  are recorded.
* `Diagnostics.merge_ofFindings`: merging the diagnostics of findings is recording the findings.
-/

namespace ApiPages

/-! ## Sets of names -/

namespace NameSet

variable {a b : NameSet} {name x : String}

@[simp] theorem contains_empty : (∅ : NameSet).contains x = false := rfl

theorem contains_add : (a.add name).contains x = true ↔ a.contains x = true ∨ name = x := by
  rw [add, Dict.contains, Dict.get?_insert]
  split
  · next h => simp [h]
  · next h => simp [Ne.symm h, Dict.contains]

theorem contains_merge :
    (Dict.merge a b).contains x = true ↔ b.contains x = true ∨ a.contains x = true := by
  rw [Dict.contains, Dict.get?_merge, Option.isSome_or, Bool.or_eq_true]
  rfl

/-- Sets with the same names are equal. -/
theorem ext_contains (h : ∀ x, a.contains x = true ↔ b.contains x = true) : a = b := by
  apply Dict.ext_get?
  intro k
  have hk := h k
  simp only [Dict.contains] at hk
  cases ha : a.get? k <;> cases hb : b.get? k <;> simp_all

end NameSet

namespace Diagnostics

/-! ## Descriptions by symbol -/

section Errors

variable {errors : Dict NameSet} {path key text : String} {descriptions : NameSet}

/-- The descriptions of a symbol. -/
def described (errors : Dict NameSet) (path : String) : NameSet := (errors.get? path).getD ∅

theorem contains_addErrors :
    (addErrors errors path descriptions).contains key = true ↔
      errors.contains key = true ∨ path = key := by
  rw [addErrors, Dict.contains, Dict.get?_insert]
  split
  · next h => simp [h]
  · next h => simp [Ne.symm h, Dict.contains]

theorem described_addErrors :
    (described (addErrors errors path descriptions) key).contains text = true ↔
      (described errors key).contains text = true ∨
        path = key ∧ descriptions.contains text = true := by
  rw [described, addErrors, Dict.get?_insert]
  split
  · next h =>
    subst h
    rw [Option.getD_some, NameSet.contains_merge]
    simp [described, or_comm]
  · next h => simp [described, Ne.symm h]

theorem contains_foldl_addErrors {es : List (String × NameSet)} :
    (es.foldl (fun acc e => addErrors acc e.1 e.2) errors).contains key = true ↔
      errors.contains key = true ∨ ∃ e ∈ es, e.1 = key := by
  induction es generalizing errors with
  | nil => simp
  | cons e es ih =>
    rw [List.foldl_cons, ih, contains_addErrors]
    simp [or_assoc]

theorem described_foldl_addErrors {es : List (String × NameSet)} :
    (described (es.foldl (fun acc e => addErrors acc e.1 e.2) errors) key).contains text = true ↔
      (described errors key).contains text = true ∨
        ∃ e ∈ es, e.1 = key ∧ e.2.contains text = true := by
  induction es generalizing errors with
  | nil => simp
  | cons e es ih =>
    rw [List.foldl_cons, ih, described_addErrors]
    simp [or_assoc]

theorem exists_entry_iff : (∃ e ∈ errors.entries, e.1 = key) ↔ errors.contains key = true := by
  rw [Dict.contains, ← Dict.mem_keys_iff, Dict.keys, List.mem_map]

theorem exists_entry_contains_iff :
    (∃ e ∈ errors.entries, e.1 = key ∧ e.2.contains text = true) ↔
      (described errors key).contains text = true := by
  rw [described]
  constructor
  · rintro ⟨⟨_, descriptions⟩, he, rfl, htext⟩
    rw [Dict.mem_entries_iff.mp he]
    exact htext
  · intro h
    cases hget : errors.get? key with
    | none => rw [hget] at h; cases h
    | some descriptions =>
      rw [hget] at h
      exact ⟨(key, descriptions), Dict.mem_entries_iff.mpr hget, rfl, h⟩

theorem ext_described {a b : Dict NameSet}
    (hkeys : ∀ key, a.contains key = true ↔ b.contains key = true)
    (hdesc : ∀ key text, (described a key).contains text = true ↔
      (described b key).contains text = true) : a = b := by
  apply Dict.ext_get?
  intro key
  have hset := NameSet.ext_contains (hdesc key)
  have hkey := hkeys key
  simp only [Dict.contains] at hkey
  simp only [described] at hset
  cases ha : a.get? key <;> cases hb : b.get? key <;> simp_all

end Errors

/-! ## Recording -/

/-- The path and the description of an error. -/
def errorOf? : Finding → Option (String × NameSet)
  | .error path description => some (path, NameSet.ofNames [description])
  | _ => none

/-- The name and the candidates of an unresolved cross-link. -/
def linkOf? : Finding → Option (String × List String)
  | .unresolvedLink parent link candidates => some (linkKey parent link, candidates)
  | _ => none

end Diagnostics

/-- The bins that hold names. -/
inductive NameBin where
  | internalReferences
  | externalReferences
  | missingDocstrings
  | unknownTags

namespace NameBin

/-- The names in a bin. -/
def names (d : Diagnostics) : NameBin → NameSet
  | internalReferences => d.internalReferences
  | externalReferences => d.externalReferences
  | missingDocstrings => d.missingDocstrings
  | unknownTags => d.unknownTags

/-- The name that a finding puts in a bin. -/
def nameOf? : NameBin → Finding → Option String
  | internalReferences, .internalReference path => some path
  | externalReferences, .externalReference path => some path
  | missingDocstrings, .missingDocstring path => some path
  | unknownTags, .unknownTag parent tag => some (Diagnostics.describeTag parent tag)
  | _, _ => none

end NameBin

namespace Diagnostics

variable (d : Diagnostics) (fs : List Finding)

theorem recordAll_cons (f : Finding) : d.recordAll (f :: fs) = (d.record f).recordAll fs := rfl

theorem recordAll_append (gs : List Finding) :
    d.recordAll (fs ++ gs) = (d.recordAll fs).recordAll gs :=
  List.foldl_append

theorem contains_record (f : Finding) (bin : NameBin) {x : String} :
    (bin.names (d.record f)).contains x = true ↔
      (bin.names d).contains x = true ∨ bin.nameOf? f = some x := by
  cases bin <;> cases f <;>
    simp [record, NameBin.names, NameBin.nameOf?, NameSet.contains_add]

/-- A bin of names holds what was in it and what the findings put there. -/
theorem contains_recordAll (bin : NameBin) {x : String} :
    (bin.names (d.recordAll fs)).contains x = true ↔
      (bin.names d).contains x = true ∨ ∃ f ∈ fs, bin.nameOf? f = some x := by
  induction fs generalizing d with
  | nil => simp [recordAll]
  | cons f fs ih =>
    rw [recordAll_cons, ih, contains_record]
    simp [or_assoc]

theorem contains_ofFindings (bin : NameBin) {x : String} :
    (bin.names (ofFindings fs)).contains x = true ↔ ∃ f ∈ fs, bin.nameOf? f = some x := by
  have hempty : (bin.names empty).contains x = false := by cases bin <;> rfl
  rw [ofFindings, contains_recordAll, hempty]
  simp

theorem unresolvedLinks_recordAll :
    (d.recordAll fs).unresolvedLinks = d.unresolvedLinks.insertAll (fs.filterMap linkOf?) := by
  induction fs generalizing d with
  | nil => rfl
  | cons f fs ih =>
    rw [recordAll_cons, ih]
    cases f <;> rfl

theorem errors_recordAll :
    (d.recordAll fs).errors =
      (fs.filterMap errorOf?).foldl (fun acc e => addErrors acc e.1 e.2) d.errors := by
  induction fs generalizing d with
  | nil => rfl
  | cons f fs ih =>
    rw [recordAll_cons, ih]
    cases f <;> rfl

/-! ## Merging -/

theorem ext_bins {a b : Diagnostics} (herrors : a.errors = b.errors)
    (hnames : ∀ bin : NameBin, bin.names a = bin.names b)
    (hlinks : a.unresolvedLinks = b.unresolvedLinks) : a = b := by
  obtain ⟨_, _, _, _, _, _⟩ := a
  obtain ⟨_, _, _, _, _, _⟩ := b
  have h1 := hnames .internalReferences
  have h2 := hnames .externalReferences
  have h3 := hnames .missingDocstrings
  have h4 := hnames .unknownTags
  simp only [NameBin.names] at h1 h2 h3 h4 herrors hlinks
  subst herrors h1 h2 h3 h4 hlinks
  rfl

theorem names_merge (bin : NameBin) (a b : Diagnostics) :
    bin.names (a.merge b) = Dict.merge (bin.names a) (bin.names b) := by
  cases bin <;> rfl

/-- Merging the descriptions that entries lead to is adding the entries. -/
theorem errors_merge_eq {a b : Diagnostics} {es : List (String × NameSet)}
    (hb : b.errors = es.foldl (fun acc e => addErrors acc e.1 e.2) ∅) :
    (a.merge b).errors = es.foldl (fun acc e => addErrors acc e.1 e.2) a.errors := by
  apply ext_described
  · intro key
    rw [merge, contains_foldl_addErrors, exists_entry_iff, hb, contains_foldl_addErrors,
      contains_foldl_addErrors]
    simp [Dict.contains]
  · intro key text
    rw [merge, described_foldl_addErrors, exists_entry_contains_iff, hb, described_foldl_addErrors,
      described_foldl_addErrors]
    simp [described]

/-- Merging the diagnostics of findings is recording the findings. -/
theorem merge_ofFindings : d.merge (ofFindings fs) = d.recordAll fs := by
  apply ext_bins
  · rw [errors_recordAll]
    exact errors_merge_eq (errors_recordAll empty fs)
  · intro bin
    rw [names_merge]
    apply NameSet.ext_contains
    intro x
    rw [NameSet.contains_merge, contains_ofFindings, contains_recordAll, or_comm]
  · apply Dict.ext_get?
    intro key
    rw [unresolvedLinks_recordAll, Dict.get?_insertAll, ← Dict.get?_ofList, merge, Dict.get?_merge,
      ofFindings, unresolvedLinks_recordAll]
    rfl

end Diagnostics

end ApiPages
