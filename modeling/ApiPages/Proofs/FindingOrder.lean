import ApiPages.Proofs.Bins
import ApiPages.Proofs.PageFindings

/-!
# The order of findings

Bins list their entries in an order of their own, so they do not tell in which order findings came.
The candidates of a cross-link are the exception: a later list replaces an earlier one. But findings
of cross-links with the same name come from the same tag of the same symbol, and agree.

Results:

* `Diagnostics.recordAll_congr`: findings that agree are recorded alike in every order, and as often
  as one likes.
* `Project.linksAgree_of_tagFault`: findings of tags agree.
* `Project.arrange_eq_mergeSort`: the order of sections is that of a stable sort.
-/

namespace ApiPages

namespace Diagnostics

/-- Findings about cross-links of the same name have the same candidates. -/
def LinksAgree (fs : List Finding) : Prop :=
  ∀ a ∈ fs.filterMap linkOf?, ∀ b ∈ fs.filterMap linkOf?, a.1 = b.1 → a.2 = b.2

theorem get?_ofList_congr {es es' : List (String × List String)} (h : ∀ e, e ∈ es ↔ e ∈ es')
    (hagree : ∀ a ∈ es, ∀ b ∈ es, a.1 = b.1 → a.2 = b.2) (key : String) :
    (Dict.ofList es).get? key = (Dict.ofList es').get? key := by
  have hagree' : ∀ a ∈ es', ∀ b ∈ es', a.1 = b.1 → a.2 = b.2 := by
    intro a ha b hb
    exact hagree a ((h a).mpr ha) b ((h b).mpr hb)
  apply Option.ext
  intro candidates
  rw [Dict.get?_ofList_eq_some_iff hagree, Dict.get?_ofList_eq_some_iff hagree']
  exact h _

/-- What is recorded depends on which findings there are, not on their order. -/
theorem recordAll_congr (d : Diagnostics) {fs gs : List Finding} (h : ∀ f, f ∈ fs ↔ f ∈ gs)
    (hagree : LinksAgree fs) : d.recordAll fs = d.recordAll gs := by
  have hmem : ∀ {β : Type} (g : Finding → Option β) (b : β),
      b ∈ fs.filterMap g ↔ b ∈ gs.filterMap g := by
    intro β g b
    simp only [List.mem_filterMap, h]
  apply ext_bins
  · rw [errors_recordAll, errors_recordAll]
    apply ext_described
    · intro key
      rw [contains_foldl_addErrors, contains_foldl_addErrors]
      simp only [hmem]
    · intro key text
      rw [described_foldl_addErrors, described_foldl_addErrors]
      simp only [hmem]
  · intro bin
    apply NameSet.ext_contains
    intro x
    rw [contains_recordAll, contains_recordAll]
    simp only [h]
  · apply Dict.ext_get?
    intro key
    rw [unresolvedLinks_recordAll, unresolvedLinks_recordAll, Dict.get?_insertAll,
      Dict.get?_insertAll, ← Dict.get?_ofList, ← Dict.get?_ofList,
      get?_ofList_congr (hmem linkOf?) hagree]

end Diagnostics

namespace Project

variable {p : Project}

/-! ## Tags -/

/-- A finding about a cross-link that comes from a tag tells the tag. -/
theorem TagFault.linkOf?_eq {parent : String} {t : Tag} {f : Finding} {e : String × List String}
    (h : p.TagFault parent t f) (he : Diagnostics.linkOf? f = some e) :
    e.1 = Diagnostics.linkKey parent (String.ofList t.text) := by
  cases h <;> cases he <;> rfl

/-- Findings of tags agree: the name of a cross-link tells the tag and the symbol it is in. -/
theorem linksAgree_of_tagFault {fs : List Finding}
    (h : ∀ f ∈ fs, ∀ e, Diagnostics.linkOf? f = some e →
      ∃ parent t, t.Fit ∧ p.TagFault parent t f) : Diagnostics.LinksAgree fs := by
  intro a ha b hb hkey
  obtain ⟨f, hf, hfa⟩ := List.mem_filterMap.mp ha
  obtain ⟨g, hg, hgb⟩ := List.mem_filterMap.mp hb
  obtain ⟨parent, t, ht, hfault⟩ := h f hf a hfa
  obtain ⟨parent', u, hu, hfault'⟩ := h g hg b hgb
  rw [hfault.linkOf?_eq hfa, hfault'.linkOf?_eq hgb] at hkey
  obtain ⟨rfl, rfl⟩ := Tag.linkKey_inj ht hu hkey
  rw [hfault.unique hfault', hgb] at hfa
  cases hfa
  rfl

/-! ## Sections -/

theorem mem_arrange_iff {sections : List DocSection} {s : DocSection} :
    s ∈ arrange sections ↔ s ∈ sections := by
  unfold arrange
  simp only [List.mem_flatMap, List.mem_filter]
  constructor
  · rintro ⟨_, _, h, _⟩
    exact h
  · intro h
    refine ⟨rank s, ?_, h, by simp⟩
    cases s <;> simp [rank]

/-- The comparison of entries by their keys. -/
def keyLe {α : Type} (a b : Nat × α) : Bool := decide (a.1 ≤ b.1)

theorem filter_filter_key {α : Type} (xs : List (Nat × α)) (q : Nat → Bool) (k : Nat) :
    (xs.filter fun y => y.1 == k).filter (fun y => q y.1) =
      if q k then xs.filter fun y => y.1 == k else [] := by
  have hkey : ∀ y ∈ xs.filter fun y => y.1 == k, y.1 = k := by
    intro y hy
    exact beq_iff_eq.mp (List.mem_filter.mp hy).2
  split
  · next hq =>
    apply List.filter_eq_self.mpr
    intro y hy
    rw [hkey y hy, hq]
  · next hq =>
    apply List.filter_eq_nil_iff.mpr
    intro y hy
    rw [hkey y hy]
    exact hq

/-- A stable sort by keys puts the entries of each key in a row. -/
theorem mergeSort_keyLe {α : Type} {xs : List (Nat × α)} (h : ∀ x ∈ xs, x.1 < 3) :
    xs.mergeSort keyLe = [0, 1, 2].flatMap fun k => xs.filter fun x => x.1 == k := by
  have htrans : ∀ a b c : Nat × α, keyLe a b → keyLe b c → keyLe a c := by
    simp only [keyLe, decide_eq_true_eq]
    omega
  have htotal : ∀ a b : Nat × α, keyLe a b || keyLe b a := by
    simp only [keyLe, Bool.or_eq_true, decide_eq_true_eq]
    omega
  induction xs with
  | nil => simp
  | cons x xs ih =>
    have hrow := ih fun y hy => h y (List.mem_cons_of_mem x hy)
    -- the first entry goes behind those with a smaller key and in front of the others
    obtain ⟨before, after, hsort, hrest, hsmaller⟩ := List.mergeSort_cons htrans htotal x xs
    have hsorted := List.pairwise_mergeSort htrans htotal (x :: xs)
    rw [hsort, List.pairwise_append, List.pairwise_cons] at hsorted
    have hlt : ∀ y ∈ before, y.1 < x.1 := by
      intro y hy
      simpa [keyLe] using hsmaller y hy
    have hge : ∀ y ∈ after, x.1 ≤ y.1 := by
      intro y hy
      simpa [keyLe] using hsorted.2.1.1 y hy
    have hbefore : before = (xs.mergeSort keyLe).filter fun y => decide (y.1 < x.1) := by
      rw [hrest, List.filter_append, List.filter_eq_self.mpr (by simpa using hlt),
        List.filter_eq_nil_iff.mpr (by simpa using hge), List.append_nil]
    have hafter : after = (xs.mergeSort keyLe).filter fun y => decide (x.1 ≤ y.1) := by
      rw [hrest, List.filter_append, List.filter_eq_nil_iff.mpr (by simpa using hlt),
        List.filter_eq_self.mpr (by simpa using hge), List.nil_append]
    rw [hsort, hbefore, hafter, hrow]
    simp only [List.flatMap_cons, List.flatMap_nil, List.append_nil, List.filter_append,
      List.filter_cons, filter_filter_key xs (fun k => decide (k < x.1)),
      filter_filter_key xs (fun k => decide (x.1 ≤ k))]
    have hkey : x.1 = 0 ∨ x.1 = 1 ∨ x.1 = 2 := by
      have hx := h x List.mem_cons_self
      omega
    rcases hkey with hk | hk | hk <;> simp [hk]

/-- The order of sections is that of a stable sort of what they are rendered as. -/
theorem arrange_eq_mergeSort {α : Type} (render : DocSection → α) (sections : List DocSection) :
    (arrange sections).map render =
      ((sections.map fun s => (rank s, render s)).mergeSort keyLe).map Prod.snd := by
  have hrank : ∀ s : DocSection, rank s < 3 := by
    intro s
    cases s <;> simp [rank]
  rw [mergeSort_keyLe (by simpa using fun s _ => hrank s), arrange, List.map_flatMap,
    List.map_flatMap]
  simp only [List.filter_map, List.map_map, Function.comp_def]

end Project

end ApiPages
