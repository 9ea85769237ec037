/-!
# Dictionaries

A dictionary maps names to values and lists its entries in the order of their names. The order of
names is the order of their code points. A dictionary has one representation, so two dictionaries
with the same look-ups are equal.

* `Dict` — the entries, strictly ascending by name.
* `Dict.insert`, `Dict.get?`, `Dict.ofList`, `Dict.merge` — the operations; a later value replaces
  an earlier one.
* `NameSet` — a dictionary that holds no values.

Results: `get?_insert`, `ext_get?`.
-/

namespace ApiPages

/-- A finite map from names to values, ascending by name. -/
structure Dict (β : Type) where
  /-- The entries in the order of their names. -/
  entries : List (String × β)
  /-- Every name is below the names after it. -/
  sorted : entries.Pairwise fun a b => a.1 < b.1

namespace Dict

variable {β γ : Type}

instance [DecidableEq β] : DecidableEq (Dict β) := fun a b =>
  decidable_of_iff (a.entries = b.entries)
    ⟨fun h => by cases a; cases b; cases h; rfl, fun h => h ▸ rfl⟩

/-! ## Entry lists -/

/-- Puts an entry in its place; an entry of the same name is replaced. -/
def insertEntry (k : String) (v : β) : List (String × β) → List (String × β)
  | [] => [(k, v)]
  | e :: es =>
    if k < e.1 then (k, v) :: e :: es
    else if k = e.1 then (k, v) :: es
    else e :: insertEntry k v es

/-- The value of the first entry of that name. -/
def lookupEntry (k : String) : List (String × β) → Option β
  | [] => none
  | e :: es => if k = e.1 then some e.2 else lookupEntry k es

theorem lt_of_not_lt_of_ne {a b : String} (h : ¬ a < b) (hne : a ≠ b) : b < a := by
  rcases Decidable.em (b < a) with hb | hb
  · exact hb
  · exact absurd (String.le_antisymm (String.not_lt.1 hb) (String.not_lt.1 h)) hne

theorem mem_insertEntry {k : String} {v : β} {e : String × β} {es : List (String × β)}
    (h : e ∈ insertEntry k v es) : e = (k, v) ∨ e ∈ es := by
  induction es with
  | nil => exact Or.inl (by simpa [insertEntry] using h)
  | cons d es ih =>
    rw [insertEntry] at h
    split at h
    · simpa using h
    · split at h
      · rcases List.mem_cons.1 h with h | h
        · exact Or.inl h
        · exact Or.inr (List.mem_cons_of_mem _ h)
      · rcases List.mem_cons.1 h with h | h
        · exact Or.inr (by simp [h])
        · exact (ih h).imp_right (List.mem_cons_of_mem _)

theorem insertEntry_sorted (k : String) (v : β) {es : List (String × β)}
    (h : es.Pairwise fun a b => a.1 < b.1) :
    (insertEntry k v es).Pairwise fun a b => a.1 < b.1 := by
  induction es with
  | nil => simp [insertEntry]
  | cons d es ih =>
    have hd := (List.pairwise_cons.1 h).1
    have hes := (List.pairwise_cons.1 h).2
    rw [insertEntry]
    split
    · next hk =>
      refine List.pairwise_cons.2 ⟨fun e he => ?_, h⟩
      rcases List.mem_cons.1 he with rfl | he
      · exact hk
      · exact String.lt_trans hk (hd e he)
    · next hk =>
      split
      · next heq => exact List.pairwise_cons.2 ⟨fun e he => heq ▸ hd e he, hes⟩
      · next hne =>
        refine List.pairwise_cons.2 ⟨fun e he => ?_, ih hes⟩
        rcases mem_insertEntry he with rfl | he
        · exact lt_of_not_lt_of_ne hk hne
        · exact hd e he

theorem lookupEntry_insertEntry (k k' : String) (v : β) (es : List (String × β)) :
    lookupEntry k' (insertEntry k v es) = if k' = k then some v else lookupEntry k' es := by
  induction es with
  | nil => simp [insertEntry, lookupEntry]
  | cons d es ih =>
    rw [insertEntry]
    split
    · simp [lookupEntry]
    · split
      · next heq => by_cases h : k' = k <;> simp [lookupEntry, h, ← heq]
      · next hne =>
        by_cases h : k' = d.1
        · have hk : ¬ k' = k := fun hk => hne (hk ▸ h)
          rw [lookupEntry, if_pos h, if_neg hk, lookupEntry, if_pos h]
        · simp [lookupEntry, h, ih]

/-! ## Operations -/

/-- The dictionary without entries. -/
def empty : Dict β := ⟨[], List.Pairwise.nil⟩

instance : EmptyCollection (Dict β) := ⟨empty⟩

instance : Inhabited (Dict β) := ⟨empty⟩

/-- Sets the value of a name. -/
def insert (d : Dict β) (k : String) (v : β) : Dict β :=
  ⟨insertEntry k v d.entries, insertEntry_sorted k v d.sorted⟩

/-- The value of a name, if it has one. -/
def get? (d : Dict β) (k : String) : Option β := lookupEntry k d.entries

/-- The name has a value. -/
def contains (d : Dict β) (k : String) : Bool := (d.get? k).isSome

/-- The number of entries. -/
def size (d : Dict β) : Nat := d.entries.length

/-- The names in order. -/
def keys (d : Dict β) : List String := d.entries.map Prod.fst

/-- The entries of a list; a later entry replaces an earlier one of the same name. -/
def insertAll (d : Dict β) (es : List (String × β)) : Dict β :=
  es.foldl (fun acc e => acc.insert e.1 e.2) d

/-- The dictionary of a list of entries. -/
def ofList (es : List (String × β)) : Dict β := empty.insertAll es

/-- All entries of both; on a name of both the second one's value stays. -/
def merge (a b : Dict β) : Dict β := a.insertAll b.entries

/-! ## Look-up laws -/

@[simp] theorem get?_empty (k : String) : (empty : Dict β).get? k = none := rfl

/-- Inserting sets one name and keeps the others. -/
@[simp] theorem get?_insert (d : Dict β) (k k' : String) (v : β) :
    (d.insert k v).get? k' = if k' = k then some v else d.get? k' :=
  lookupEntry_insertEntry k k' v d.entries

theorem lookupEntry_eq_none_of_lt {k : String} {es : List (String × β)}
    (h : ∀ e ∈ es, k < e.1) : lookupEntry k es = none := by
  induction es with
  | nil => rfl
  | cons d es ih =>
    have hd : ¬ k = d.1 := fun hk => String.lt_irrefl k (by
      have := h d (by simp)
      rwa [← hk] at this)
    rw [lookupEntry, if_neg hd]
    exact ih fun e he => h e (List.mem_cons_of_mem _ he)

theorem entries_eq_of_lookupEntry {es fs : List (String × β)}
    (hes : es.Pairwise fun a b => a.1 < b.1) (hfs : fs.Pairwise fun a b => a.1 < b.1)
    (h : ∀ k, lookupEntry k es = lookupEntry k fs) : es = fs := by
  induction es generalizing fs with
  | nil =>
    cases fs with
    | nil => rfl
    | cons f fs => simpa [lookupEntry] using h f.1
  | cons e es ih =>
    cases fs with
    | nil => simpa [lookupEntry] using h e.1
    | cons f fs =>
      have he := List.pairwise_cons.1 hes
      have hf := List.pairwise_cons.1 hfs
      have hkey : e.1 = f.1 := by
        rcases Decidable.em (e.1 = f.1) with hk | hk
        · exact hk
        · exfalso
          rcases Decidable.em (e.1 < f.1) with hlt | hlt
          · have h1 : lookupEntry e.1 (f :: fs) = none :=
              lookupEntry_eq_none_of_lt fun g hg => by
                rcases List.mem_cons.1 hg with rfl | hg
                · exact hlt
                · exact String.lt_trans hlt (hf.1 g hg)
            simpa [lookupEntry] using (h e.1).trans h1
          · have hlt' := lt_of_not_lt_of_ne hlt hk
            have h1 : lookupEntry f.1 (e :: es) = none :=
              lookupEntry_eq_none_of_lt fun g hg => by
                rcases List.mem_cons.1 hg with rfl | hg
                · exact hlt'
                · exact String.lt_trans hlt' (he.1 g hg)
            simpa [lookupEntry] using (h f.1).symm.trans h1
      have hval : e.2 = f.2 := by
        have := h e.1
        simpa [lookupEntry, hkey] using this
      have hrest : es = fs := ih he.2 hf.2 fun k => by
        by_cases hk : k = e.1
        · rw [lookupEntry_eq_none_of_lt fun g hg => hk ▸ he.1 g hg,
            lookupEntry_eq_none_of_lt fun g hg => hk ▸ hkey ▸ hf.1 g hg]
        · have := h k
          simpa [lookupEntry, hk, ← hkey] using this
      rw [show e = f from Prod.ext hkey hval, hrest]

/-- Dictionaries with the same look-ups are equal. -/
theorem ext_get? {a b : Dict β} (h : ∀ k, a.get? k = b.get? k) : a = b := by
  have := entries_eq_of_lookupEntry a.sorted b.sorted h
  cases a; cases b; cases this; rfl

end Dict

/-- A set of names, listed in order. -/
abbrev NameSet := Dict Unit

/-- Adds a name to a set. -/
def NameSet.add (s : NameSet) (name : String) : NameSet := s.insert name ()

/-- The set of the names of a list. -/
def NameSet.ofNames (names : List String) : NameSet := Dict.ofList (names.map fun n => (n, ()))

end ApiPages
