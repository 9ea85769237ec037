import ApiPages.Dict
import Mathlib.Data.List.Nodup

/-!
# Laws of dictionaries

A dictionary is determined by its look-ups, so its operations are described by what they do to them.

Results:

* `Dict.mem_entries_iff`: the entries are the look-ups that succeed.
* `Dict.get?_insertAll`, `Dict.get?_ofList`, `Dict.get?_ofList_append`: the last entry of a name
  counts.
* `Dict.ofList_entries`: a dictionary is the dictionary of its entries.
* `Dict.get?_merge`: the second dictionary counts where it has the name.
* `Dict.get?_ofList_eq_some_iff`: look-ups in a dictionary of entries that agree with each other.
-/

namespace ApiPages.Dict

variable {β : Type}

/-! ## Entries and names -/

theorem lookupEntry_eq_some_iff {k : String} {v : β} {es : List (String × β)}
    (hes : es.Pairwise fun a b => a.1 < b.1) : lookupEntry k es = some v ↔ (k, v) ∈ es := by
  induction es with
  | nil => simp [lookupEntry]
  | cons e es ih =>
    obtain ⟨he, hes⟩ := List.pairwise_cons.mp hes
    rw [lookupEntry, List.mem_cons]
    split
    · next hk =>
      subst hk
      constructor
      · intro h
        cases h
        exact Or.inl rfl
      · rintro (h | h)
        · rw [← h]
        · exact absurd (he _ h) (String.lt_irrefl _)
    · next hk =>
      rw [ih hes]
      constructor
      · exact Or.inr
      · rintro (rfl | h)
        · exact absurd rfl hk
        · exact h

/-- The entries are the look-ups that succeed. -/
theorem mem_entries_iff {d : Dict β} {k : String} {v : β} :
    (k, v) ∈ d.entries ↔ d.get? k = some v :=
  (lookupEntry_eq_some_iff d.sorted).symm

theorem mem_keys_iff {d : Dict β} {k : String} : k ∈ d.keys ↔ (d.get? k).isSome = true := by
  rw [keys, List.mem_map, Option.isSome_iff_exists]
  constructor
  · rintro ⟨⟨_, v⟩, he, rfl⟩
    exact ⟨v, mem_entries_iff.mp he⟩
  · rintro ⟨v, h⟩
    exact ⟨(k, v), mem_entries_iff.mpr h, rfl⟩

theorem length_keys (d : Dict β) : d.keys.length = d.size := by rw [keys, List.length_map, size]

/-! ## Many entries -/

@[simp] theorem get?_emptyCollection (k : String) : (∅ : Dict β).get? k = none := rfl

/-- The last entry of a name counts. -/
theorem get?_insertAll (d : Dict β) (es : List (String × β)) (k : String) :
    (d.insertAll es).get? k =
      ((es.reverse.find? fun e => e.1 = k).map Prod.snd).or (d.get? k) := by
  induction es generalizing d with
  | nil => rfl
  | cons e es ih =>
    have hstep : d.insertAll (e :: es) = (d.insert e.1 e.2).insertAll es := rfl
    rw [hstep, ih, get?_insert, List.reverse_cons, List.find?_append]
    cases hf : es.reverse.find? fun e => e.1 = k with
    | some f => rfl
    | none =>
      by_cases hk : k = e.1
      · simp [hk]
      · have : ¬ e.1 = k := fun h => hk h.symm
        simp [hk, this]

theorem get?_ofList (es : List (String × β)) (k : String) :
    (ofList es).get? k = (es.reverse.find? fun e => e.1 = k).map Prod.snd := by
  rw [ofList, get?_insertAll, get?_empty, Option.or_none]

/-- Of two lists of entries the second one counts where it has the name. -/
theorem get?_ofList_append (es fs : List (String × β)) (k : String) :
    (ofList (es ++ fs)).get? k = ((ofList fs).get? k).or ((ofList es).get? k) := by
  rw [get?_ofList, get?_ofList, get?_ofList, List.reverse_append, List.find?_append, Option.map_or]

theorem get?_ofList_eq_none {es : List (String × β)} {k : String} (h : ∀ e ∈ es, e.1 ≠ k) :
    (ofList es).get? k = none := by
  rw [get?_ofList, List.find?_eq_none.mpr, Option.map_none]
  intro e he
  simpa using h e (List.mem_reverse.mp he)

/-- Look-ups in a dictionary of entries that agree with each other. -/
theorem get?_ofList_eq_some_iff {es : List (String × β)}
    (hes : ∀ a ∈ es, ∀ b ∈ es, a.1 = b.1 → a.2 = b.2) {k : String} {v : β} :
    (ofList es).get? k = some v ↔ (k, v) ∈ es := by
  rw [get?_ofList]
  cases hf : es.reverse.find? fun e => e.1 = k with
  | none =>
    simp only [Option.map_none, reduceCtorEq, false_iff]
    intro hmem
    have := List.find?_eq_none.mp hf (k, v) (List.mem_reverse.mpr hmem)
    simp at this
  | some e =>
    have hmem : e ∈ es := List.mem_reverse.mp (List.mem_of_find?_eq_some hf)
    have hkey : e.1 = k := by simpa using List.find?_some hf
    simp only [Option.map_some, Option.some.injEq]
    constructor
    · rintro rfl
      rw [← hkey]
      exact hmem
    · intro h
      exact hes e hmem (k, v) h hkey

theorem contains_ofList_iff {es : List (String × β)} {k : String} :
    (ofList es).contains k = true ↔ k ∈ es.map Prod.fst := by
  rw [contains, get?_ofList, Option.isSome_map, List.find?_isSome]
  simp

/-- A dictionary is the dictionary of its entries. -/
theorem ofList_entries (d : Dict β) : ofList d.entries = d := by
  have hagree : ∀ e ∈ d.entries, ∀ f ∈ d.entries, e.1 = f.1 → e.2 = f.2 := by
    rintro ⟨x, v⟩ he ⟨y, w⟩ hf rfl
    exact Option.some.inj ((mem_entries_iff.mp he).symm.trans (mem_entries_iff.mp hf))
  apply ext_get?
  intro k
  apply Option.ext
  intro v
  rw [get?_ofList_eq_some_iff hagree, mem_entries_iff]

/-- On a name of both dictionaries the second one counts. -/
theorem get?_merge (a b : Dict β) (k : String) :
    (a.merge b).get? k = (b.get? k).or (a.get? k) := by
  rw [merge, get?_insertAll, ← get?_ofList, ofList_entries]

end ApiPages.Dict
