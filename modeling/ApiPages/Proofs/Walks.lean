import ApiPages.Proofs.Paths

/-!
# What walks visit

A walk visits the nodes that lie some steps below its top, each step from a node to a selected
member, and it visits each of them once.

Results:

* `Node.mem_walkFrom_iff`: a walk visits what lies below its top, at the depth of its steps.
* `Node.map_module_walkFrom_sublist`: the order of a walk is pre-order.
* `Snapshot.Sound.above_unique`: what a node lies so many steps below is determined.
* `Snapshot.Sound.pages_nodup`: no module has two pages.
-/

namespace ApiPages

namespace Node

/-- The node lies some steps below `top`; every step goes to a member that `keep` selects. -/
inductive Below (keep : Node → Bool) (top : Node) : Nat → Node → Prop
  | self : Below keep top 0 top
  | step {k : Nat} {n c : Node} (h : Below keep top k n) (hc : c ∈ n.children)
      (hkeep : keep c = true) : Below keep top (k + 1) c

namespace Below

variable {keep keep' : Node → Bool} {top n c : Node} {j k : Nat}

theorem of_child (hc : c ∈ top.children) (hkeep : keep c = true) (h : c.Below keep k n) :
    top.Below keep (k + 1) n := by
  induction h with
  | self => exact .step .self hc hkeep
  | step _ hmem hk ih => exact .step ih hmem hk

theorem trans (h : top.Below keep j c) (h' : c.Below keep k n) : top.Below keep (j + k) n := by
  induction h' with
  | self => exact h
  | step _ hmem hk ih => exact .step ih hmem hk

theorem mono (hle : ∀ n, keep n = true → keep' n = true) (h : top.Below keep k n) :
    top.Below keep' k n := by
  induction h with
  | self => exact .self
  | step _ hmem hk ih => exact .step ih hmem (hle _ hk)

theorem mem_preorder (h : top.Below keep k n) : n ∈ top.preorder := by
  induction h with
  | self => exact self_mem_preorder top
  | step _ hmem _ ih => exact mem_preorder_of_mem_children ih hmem

end Below

/-! ## Visits -/

variable {keep : Node → Bool}

/-- A walk goes on to the selected members of what it visits. -/
theorem member_mem_walkFrom {depth : Nat} {t c : Node} {v : Visit}
    (hv : v ∈ t.walkFrom keep depth) (hc : c ∈ v.module.children) (hkeep : keep c = true) :
    ⟨v.depth + 1, c⟩ ∈ t.walkFrom keep depth := by
  have hself : ∀ (n : Node) (d : Nat), ⟨d, n⟩ ∈ n.walkFrom keep d := by
    rintro ⟨i, cs⟩ d
    rw [walkFrom_mk]
    exact List.mem_cons_self
  induction t using Node.induct generalizing depth with
  | mk i cs ih =>
    rw [walkFrom_mk, List.mem_cons, List.mem_flatMap] at hv ⊢
    right
    rcases hv with rfl | ⟨b, hb, hv⟩
    · exact ⟨c, List.mem_filter.mpr ⟨hc, hkeep⟩, hself c (depth + 1)⟩
    · exact ⟨b, hb, ih b (List.mem_filter.mp hb).1 hv⟩

/-- A walk visits what lies below its top, at the depth of its steps. -/
theorem mem_walkFrom_iff {depth : Nat} {t : Node} {v : Visit} :
    v ∈ t.walkFrom keep depth ↔ ∃ k, t.Below keep k v.module ∧ v.depth = depth + k := by
  constructor
  · intro hv
    induction t using Node.induct generalizing depth with
    | mk i cs ih =>
      rw [walkFrom_mk, List.mem_cons, List.mem_flatMap] at hv
      rcases hv with rfl | ⟨c, hc, hv⟩
      · exact ⟨0, .self, rfl⟩
      · obtain ⟨hmem, hkeep⟩ := List.mem_filter.mp hc
        obtain ⟨k, hbelow, hdepth⟩ := ih c hmem hv
        exact ⟨k + 1, .of_child hmem hkeep hbelow, by omega⟩
  · rintro ⟨k, hbelow, hdepth⟩
    obtain ⟨d, n⟩ := v
    simp only at hbelow hdepth
    subst hdepth
    induction hbelow with
    | self =>
      obtain ⟨i, cs⟩ := t
      rw [walkFrom_mk]
      exact List.mem_cons_self
    | step _ hmem hkeep ih => exact member_mem_walkFrom ih hmem hkeep

/-! ## Order -/

theorem children_sublist_preorder (t : Node) : t.children.Sublist t.preorder := by
  obtain ⟨i, cs⟩ := t
  rw [preorder_mk, children_mk]
  apply List.Sublist.cons
  induction cs with
  | nil => exact List.Sublist.slnil
  | cons c cs ih =>
    obtain ⟨j, bs⟩ := c
    rw [List.flatMap_cons, preorder_mk, List.cons_append]
    exact (ih.trans (List.sublist_append_right _ _)).cons_cons _

theorem preorder_sublist {t n : Node} (hn : n ∈ t.preorder) : n.preorder.Sublist t.preorder := by
  induction t using Node.induct with
  | mk i cs ih =>
    rw [preorder_mk, List.mem_cons, List.mem_flatMap] at hn
    rcases hn with rfl | ⟨c, hc, hn⟩
    · exact List.Sublist.refl _
    · have hflat : c.preorder.Sublist (cs.flatMap preorder) := by
        obtain ⟨before, after, rfl⟩ := List.append_of_mem hc
        rw [List.flatMap_append, List.flatMap_cons]
        exact (List.sublist_append_left _ _).trans (List.sublist_append_right _ _)
      rw [preorder_mk]
      exact ((ih c hc hn).trans hflat).cons _

/-- A walk keeps the order of the listing. -/
theorem map_module_walkFrom_sublist (keep : Node → Bool) (depth : Nat) (t : Node) :
    ((t.walkFrom keep depth).map Visit.module).Sublist t.preorder := by
  induction t using Node.induct generalizing depth with
  | mk i cs ih =>
    rw [walkFrom_mk, preorder_mk, List.map_cons, List.map_flatMap]
    apply List.Sublist.cons_cons
    clear i
    induction cs with
    | nil => exact List.Sublist.slnil
    | cons c cs ihcs =>
      have hrest := ihcs fun b hb => ih b (List.mem_cons_of_mem c hb)
      rw [List.filter_cons, List.flatMap_cons]
      split
      · rw [List.flatMap_cons]
        exact (ih c List.mem_cons_self (depth + 1)).append hrest
      · exact hrest.trans (List.sublist_append_right _ _)

end Node

/-! ## Snapshots -/

namespace Snapshot.Sound

variable {s : Snapshot}

theorem nodes_nodup (hs : s.Sound) : s.nodes.Nodup := List.Nodup.of_map _ hs.paths_nodup

theorem children_nodup (hs : s.Sound) {n : Node} (hn : n ∈ s.nodes) : n.children.Nodup :=
  hs.nodes_nodup.sublist ((Node.children_sublist_preorder n).trans (Node.preorder_sublist hn))

theorem not_mem_own_children (hs : s.Sound) {n : Node} (hn : n ∈ s.nodes) : n ∉ n.children := by
  intro hmem
  have hpath := congrArg (fun p => p.toList.length) (hs.child_path n hn n hmem)
  simp only [DottedPath.toList_child, List.length_append, List.length_cons] at hpath
  omega

/-- What a node lies so many steps below is determined. -/
theorem above_unique (hs : s.Sound) {keep keep' : Node → Bool} {a b n : Node} {k : Nat}
    (ha : a ∈ s.nodes) (hb : b ∈ s.nodes) (hna : a.Below keep k n) (hnb : b.Below keep' k n) :
    a = b := by
  have hbelow : ∀ {t : Node} {keep : Node → Bool} {j : Nat} {m : Node}, t ∈ s.nodes →
      t.Below keep j m → m ∈ s.nodes := by
    intro t keep j m ht hm
    exact (Node.preorder_sublist ht).subset hm.mem_preorder
  induction hna with
  | self =>
    cases hnb with
    | self => rfl
  | step hna hc _ ih =>
    cases hnb with
    | step hnb hc' _ =>
      cases hs.parent_unique (hbelow ha hna) (hbelow hb hnb) hc hc'
      exact ih hnb

/-- No module has two pages. -/
theorem pages_nodup (hs : s.Sound) : (s.pages.map Visit.module).Nodup :=
  hs.nodes_nodup.sublist (Node.map_module_walkFrom_sublist _ _ _)

end Snapshot.Sound

end ApiPages
