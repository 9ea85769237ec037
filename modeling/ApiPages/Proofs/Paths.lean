import ApiPages.Proofs.Loading
import ApiPages.Proofs.SplitLaws
import ApiPages.Symbol

/-!
# Canonical paths

What stripping the root from a path does, and which paths the nodes of a loaded snapshot have.

Results:

* `DottedPath.isInternal_iff`, `DottedPath.relativeTo_child`: paths inside a project.
* `DottedPath.child_inj`: a path without its last segment.
* `Snapshot.Sound.path_cases`: the root has its name for a path; all other nodes lie below it.
* `Snapshot.Sound.path_of_relative_eq`: two nodes share a relative path only if they are the same,
  or if one is the root and the other has the name of the root as its relative path.
-/

namespace ApiPages

namespace DottedPath

theorem toList_child (parent name : String) :
    (child parent name).toList = parent.toList ++ '.' :: name.toList := by
  rw [child, String.toList_append, String.toList_append]
  simp

theorem afterRoot_eq_some_iff (root path : String) (rest : List Char) :
    afterRoot root path = some rest ↔ path.toList = root.toList ++ rest :=
  Text.afterStart_eq_some_iff _ _ _

theorem afterRoot_eq_some_dot_iff (root path : String) (rest : List Char) :
    afterRoot root path = some ('.' :: rest) ↔ path = child root (String.ofList rest) := by
  rw [afterRoot_eq_some_iff, ← String.toList_inj, toList_child, String.toList_ofList]

@[simp] theorem afterRoot_child (root x : String) :
    afterRoot root (child root x) = some ('.' :: x.toList) := by
  rw [afterRoot_eq_some_dot_iff, String.ofList_toList]

@[simp] theorem relativeTo_child (root x : String) : relativeTo root (child root x) = x := by
  rw [relativeTo, afterRoot_child]
  exact String.ofList_toList

@[simp] theorem relativeTo_self (root : String) : relativeTo root root = root := by
  have : afterRoot root root = some [] := by rw [afterRoot_eq_some_iff, List.append_nil]
  rw [relativeTo, this]

/-- The paths inside a project are its root and those that start with the root and a dot. -/
theorem isInternal_iff (root path : String) :
    isInternal root path = true ↔ path = root ∨ ∃ x, path = child root x := by
  rw [isInternal, Bool.or_eq_true, beq_iff_eq]
  refine or_congr_right ?_
  constructor
  · intro h
    split at h
    · next rest heq => exact ⟨_, (afterRoot_eq_some_dot_iff _ _ _).mp heq⟩
    · cases h
  · rintro ⟨x, rfl⟩
    simp only [afterRoot_child]

theorem child_child (a b c : String) : child (child a b) c = child a (child b c) := by
  rw [← String.toList_inj]
  simp [toList_child]

theorem child_ne_name (a x : String) : child a x ≠ x := by
  intro h
  have := congrArg (fun s => s.toList.length) h
  simp only [toList_child, List.length_append, List.length_cons] at this
  omega

/-- The last segment of a path and what is before it. -/
theorem child_inj {a b x y : String} (hx : '.' ∉ x.toList) (hy : '.' ∉ y.toList)
    (h : child a x = child b y) : a = b ∧ x = y := by
  rw [← String.toList_inj, toList_child, toList_child] at h
  rw [← String.toList_inj, ← String.toList_inj]
  exact Text.append_cons_inj hx hy h

theorem segments_of_dot_not_mem {name : String} (h : '.' ∉ name.toList) :
    segments name = [name] := by
  rw [segments, Text.splitString, Text.splitOn_of_not_mem h, List.map_singleton,
    String.ofList_toList]

end DottedPath

/-- A path with one segment is the navigation path of the module at it. -/
theorem navigationPath_module_of_dot_not_mem {name : String} (h : '.' ∉ name.toList) :
    navigationPath .module name = name := by
  simp [navigationPath, DottedPath.segments_of_dot_not_mem h, SymbolKind.leafSegments,
    Text.joinStrings, Text.joinWith]

/-! ## Paths of nodes -/

theorem Node.isReexport_of_isModule {n : Node} (h : n.isModule = true) : n.isReexport = false := by
  unfold isModule at h
  unfold isReexport
  cases hk : n.info.kind <;> simp_all

theorem Node.path_of_mem_preorder {t : Node}
    (hchild : ∀ n ∈ t.preorder, ∀ c ∈ n.children, c.path = DottedPath.child n.path c.name) :
    ∀ n ∈ t.preorder, n = t ∨ ∃ x, n.path = DottedPath.child t.path x := by
  induction t using Node.induct with
  | mk i cs ih =>
    intro n hn
    rw [preorder_mk, List.mem_cons, List.mem_flatMap] at hn
    rcases hn with rfl | ⟨c, hc, hn⟩
    · exact Or.inl rfl
    · right
      have hsub : ∀ m ∈ c.preorder, m ∈ preorder (.mk i cs) := by
        intro m hm
        rw [preorder_mk]
        exact List.mem_cons_of_mem _ (List.mem_flatMap.mpr ⟨c, hc, hm⟩)
      have hcpath := hchild _ (self_mem_preorder _) c hc
      rcases ih c hc (fun m hm => hchild m (hsub m hm)) n hn with rfl | ⟨x, hx⟩
      · exact ⟨_, hcpath⟩
      · exact ⟨DottedPath.child c.name x, by rw [hx, hcpath, DottedPath.child_child]⟩

theorem Snapshot.root_mem_nodes (s : Snapshot) : s.root ∈ s.nodes := Node.self_mem_preorder _

theorem Snapshot.child_mem_nodes {s : Snapshot} {n c : Node} (hn : n ∈ s.nodes)
    (hc : c ∈ n.children) : c ∈ s.nodes :=
  Node.mem_preorder_of_mem_children hn hc

namespace Snapshot.Sound

variable {s : Snapshot}

/-- Nodes of a snapshot are told apart by their paths. -/
theorem eq_of_path (hs : s.Sound) {n m : Node} (hn : n ∈ s.nodes) (hm : m ∈ s.nodes)
    (h : n.path = m.path) : n = m :=
  List.inj_on_of_nodup_map hs.paths_nodup hn hm h

/-- A node is found under its path. -/
theorem find?_path (hs : s.Sound) {n : Node} (hn : n ∈ s.nodes) : s.find? n.path = some n := by
  unfold Snapshot.find?
  cases hfind : s.nodes.find? fun k => k.path == n.path with
  | none =>
    have hne := List.find?_eq_none.mp hfind n hn
    simp at hne
  | some k =>
    have hk : k ∈ s.nodes := List.mem_of_find?_eq_some hfind
    have hpath : k.path = n.path := by simpa using List.find?_some hfind
    rw [hs.eq_of_path hk hn hpath]

/-- The root has its name for a path, and all other nodes lie below it. -/
theorem path_cases (hs : s.Sound) {n : Node} (hn : n ∈ s.nodes) :
    n = s.root ∨ ∃ x, n.path = DottedPath.child s.rootName x := by
  rw [← hs.root_path]
  exact Node.path_of_mem_preorder hs.child_path n hn

theorem isInternal_path (hs : s.Sound) {n : Node} (hn : n ∈ s.nodes) :
    DottedPath.isInternal s.rootName n.path = true := by
  rw [DottedPath.isInternal_iff]
  rcases hs.path_cases hn with rfl | h
  · exact Or.inl hs.root_path
  · exact Or.inr h

/-- Only the root and a node below it that has the name of the root as its relative path are not
told apart by their relative paths. -/
theorem path_of_relative_eq (hs : s.Sound) {n m : Node} (hn : n ∈ s.nodes) (hm : m ∈ s.nodes)
    (h : DottedPath.relativeTo s.rootName n.path = DottedPath.relativeTo s.rootName m.path) :
    n = m ∨ (n = s.root ∧ m.path = DottedPath.child s.rootName s.rootName) ∨
      (m = s.root ∧ n.path = DottedPath.child s.rootName s.rootName) := by
  rcases hs.path_cases hn with rfl | ⟨x, hx⟩
  · rcases hs.path_cases hm with rfl | ⟨y, hy⟩
    · exact Or.inl rfl
    · rw [hs.root_path, DottedPath.relativeTo_self, hy, DottedPath.relativeTo_child] at h
      exact Or.inr (Or.inl ⟨rfl, by rw [hy, ← h]⟩)
  · rcases hs.path_cases hm with rfl | ⟨y, hy⟩
    · rw [hs.root_path, DottedPath.relativeTo_self, hx, DottedPath.relativeTo_child] at h
      exact Or.inr (Or.inr ⟨rfl, by rw [hx, h]⟩)
    · rw [hx, hy, DottedPath.relativeTo_child, DottedPath.relativeTo_child] at h
      exact Or.inl (hs.eq_of_path hn hm (by rw [hx, hy, h]))

theorem eq_root_of_path (hs : s.Sound) {n : Node} (hn : n ∈ s.nodes) (h : n.path = s.rootName) :
    n = s.root :=
  hs.eq_of_path hn s.root_mem_nodes (by rw [h, hs.root_path])

/-- A node is the member of one node only. -/
theorem parent_unique (hs : s.Sound) {p q n : Node} (hp : p ∈ s.nodes) (hq : q ∈ s.nodes)
    (hnp : n ∈ p.children) (hnq : n ∈ q.children) : p = q := by
  apply hs.eq_of_path hp hq
  have h := (hs.child_path p hp n hnp).symm.trans (hs.child_path q hq n hnq)
  rw [← String.toList_inj, DottedPath.toList_child, DottedPath.toList_child] at h
  rw [← String.toList_inj]
  exact List.append_cancel_right h

theorem root_not_mem_children (hs : s.Sound) {n : Node} (hn : n ∈ s.nodes) :
    s.root ∉ n.children := by
  intro hroot
  have hpath := hs.child_path n hn _ hroot
  rw [hs.root_path] at hpath
  exact DottedPath.child_ne_name _ _ hpath.symm

theorem name_ne_empty (hs : s.Sound) {n : Node} (hn : n ∈ s.nodes) : n.name ≠ "" := by
  intro hempty
  have h := hs.nameAllowed n hn
  simp [Snapshot.nameAllowed, hempty] at h

theorem dot_not_mem_name (hs : s.Sound) {n : Node} (hn : n ∈ s.nodes)
    (hre : n.isReexport = false) : '.' ∉ n.name.toList := by
  have h := hs.nameAllowed n hn
  simp only [Snapshot.nameAllowed, hre, Bool.false_or, Bool.and_eq_true, Bool.not_eq_true',
    List.contains_eq_mem, decide_eq_false_iff_not] at h
  exact h.2

theorem dot_not_mem_rootName (hs : s.Sound) : '.' ∉ s.rootName.toList := by
  exact hs.dot_not_mem_name s.root_mem_nodes (Node.isReexport_of_isModule hs.root_isModule)

theorem segments_name (hs : s.Sound) {n : Node} (hn : n ∈ s.nodes) (h : n.isModule = true) :
    DottedPath.segments n.name = [n.name] :=
  DottedPath.segments_of_dot_not_mem (hs.dot_not_mem_name hn (Node.isReexport_of_isModule h))

/-- A node below the root that has the name of the root as its relative path is a member of the
root, unless it is a re-export. -/
theorem parent_eq_root (hs : s.Sound) {p n : Node} (hp : p ∈ s.nodes) (hn : n ∈ p.children)
    (hre : n.isReexport = false) (hpath : n.path = DottedPath.child s.rootName s.rootName) :
    p = s.root := by
  have h := (hs.child_path p hp n hn).symm.trans hpath
  have hname := hs.dot_not_mem_name (Snapshot.child_mem_nodes hp hn) hre
  obtain ⟨hproot, -⟩ := DottedPath.child_inj hname hs.dot_not_mem_rootName h
  exact hs.eq_root_of_path hp hproot

end Snapshot.Sound

end ApiPages
