import ApiPages.ModuleWalk
import Mathlib.Data.List.Nodup

/-!
# Trees of nodes and declarations

Induction over the two trees, and the mutual recursions of the project as plain operations on lists
of members.

* `Node.induct`, `Declaration.induct`: a property that passes from the members to the whole holds of
  every tree.
* `Node.preorder_mk`, `Node.walkFrom_mk`, `Node.build_mk`: one level of the listing, of a walk and
  of the node of a declaration.
* `Node.mem_preorder_of_mem_children`: the listing of a tree is closed under members.
* `Node.walkFrom_modules`: the modules of a walk are nodes of the tree, and all but the first are
  selected.
-/

namespace ApiPages

/-! ## Induction -/

theorem Node.induct {motive : Node → Prop}
    (mk : ∀ i cs, (∀ c ∈ cs, motive c) → motive (.mk i cs)) : ∀ n, motive n
  | .mk i cs => mk i cs fun c _hc => Node.induct mk c
termination_by n => sizeOf n
decreasing_by
  have := List.sizeOf_lt_of_mem _hc
  simp only [Node.mk.sizeOf_spec]
  omega

theorem Declaration.induct {motive : Declaration → Prop}
    (mk : ∀ f ms, (∀ m ∈ ms, motive m) → motive (.mk f ms)) : ∀ d, motive d
  | .mk f ms => mk f ms fun m _hm => Declaration.induct mk m
termination_by d => sizeOf d
decreasing_by
  have := List.sizeOf_lt_of_mem _hm
  simp only [Declaration.mk.sizeOf_spec]
  omega

namespace Node

@[simp] theorem info_mk (i : NodeInfo) (cs : List Node) : (Node.mk i cs).info = i := rfl

@[simp] theorem children_mk (i : NodeInfo) (cs : List Node) : (Node.mk i cs).children = cs := rfl

/-! ## Pre-order -/

theorem preorderAll_eq (cs : List Node) : preorderAll cs = cs.flatMap preorder := by
  induction cs with
  | nil => rfl
  | cons c cs ih => rw [preorderAll, ih, List.flatMap_cons]

theorem preorder_mk (i : NodeInfo) (cs : List Node) :
    preorder (.mk i cs) = .mk i cs :: cs.flatMap preorder := by
  rw [preorder, preorderAll_eq]

theorem self_mem_preorder (n : Node) : n ∈ n.preorder := by
  obtain ⟨i, cs⟩ := n
  simp [preorder_mk]

theorem mem_preorder_of_mem_children {t n c : Node} (hn : n ∈ t.preorder)
    (hc : c ∈ n.children) : c ∈ t.preorder := by
  induction t using Node.induct with
  | mk i cs ih =>
    rw [preorder_mk, List.mem_cons, List.mem_flatMap] at hn ⊢
    right
    rcases hn with rfl | ⟨b, hb, hn⟩
    · exact ⟨c, hc, self_mem_preorder c⟩
    · exact ⟨b, hb, ih b hb hn⟩

/-- Every node of a tree but its top is a member of a node of the tree. -/
theorem exists_parent_of_mem_preorder {t n : Node} (hn : n ∈ t.preorder) :
    n = t ∨ ∃ p ∈ t.preorder, n ∈ p.children := by
  induction t using Node.induct with
  | mk i cs ih =>
    rw [preorder_mk, List.mem_cons, List.mem_flatMap] at hn
    rcases hn with rfl | ⟨b, hb, hn⟩
    · exact Or.inl rfl
    · right
      rcases ih b hb hn with rfl | ⟨p, hp, hnp⟩
      · exact ⟨.mk i cs, self_mem_preorder _, hb⟩
      · refine ⟨p, ?_, hnp⟩
        rw [preorder_mk]
        exact List.mem_cons_of_mem _ (List.mem_flatMap.mpr ⟨b, hb, hp⟩)

/-! ## Walks -/

theorem walkMembers_eq (keep : Node → Bool) (depth : Nat) (cs : List Node) :
    walkMembers keep depth cs = (cs.filter keep).flatMap (walkFrom keep depth) := by
  induction cs with
  | nil => rfl
  | cons c cs ih =>
    rw [walkMembers, ih, List.filter_cons]
    split <;> simp

theorem walkFrom_mk (keep : Node → Bool) (depth : Nat) (i : NodeInfo) (cs : List Node) :
    walkFrom keep depth (.mk i cs) =
      ⟨depth, .mk i cs⟩ :: (cs.filter keep).flatMap (walkFrom keep (depth + 1)) := by
  rw [walkFrom, walkMembers_eq]

/-- The modules of a walk are nodes of the tree, and all but the top are selected. -/
theorem walkFrom_modules {keep : Node → Bool} {depth : Nat} {t : Node} {v : Visit}
    (hv : v ∈ t.walkFrom keep depth) :
    v.module ∈ t.preorder ∧ (v.module = t ∨ keep v.module = true) := by
  induction t using Node.induct generalizing depth with
  | mk i cs ih =>
    rw [walkFrom_mk, List.mem_cons, List.mem_flatMap] at hv
    rcases hv with rfl | ⟨c, hc, hv⟩
    · exact ⟨self_mem_preorder _, Or.inl rfl⟩
    · obtain ⟨hcs, hkeep⟩ := List.mem_filter.mp hc
      obtain ⟨hmem, hsel⟩ := ih c hcs hv
      refine ⟨?_, Or.inr ?_⟩
      · rw [preorder_mk]
        exact List.mem_cons_of_mem _ (List.mem_flatMap.mpr ⟨c, hcs, hmem⟩)
      · rcases hsel with h | h
        · rw [h]; exact hkeep
        · exact h

/-! ## Nodes of declarations -/

theorem buildAll_eq (parent : String) (file : Option String) (ms : List Declaration) :
    buildAll parent file ms =
      ms.map fun m =>
        build (DottedPath.child parent m.fields.name) (m.fields.filepath.or file) m := by
  induction ms with
  | nil => rfl
  | cons m ms ih =>
    obtain ⟨f, inner⟩ := m
    rw [buildAll, ih]
    rfl

theorem build_mk (path : String) (file : Option String) (f : DeclFields)
    (ms : List Declaration) :
    build path file (.mk f ms) =
      .mk (infoOf path file f) (ms.map fun m =>
        build (DottedPath.child path m.fields.name) (m.fields.filepath.or file) m) := by
  rw [build, buildAll_eq]

@[simp] theorem info_build (path : String) (file : Option String) (d : Declaration) :
    (build path file d).info = infoOf path file d.fields := by
  obtain ⟨f, ms⟩ := d
  rw [build_mk]
  rfl

end Node

end ApiPages
