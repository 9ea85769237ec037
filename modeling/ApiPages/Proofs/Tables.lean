import ApiPages.Proofs.DictLaws
import ApiPages.Proofs.Paths
import ApiPages.Reference.Resolve

/-!
# The tables of a project

What a project is built of, and what its symbol table holds.

Results:

* `Project.built_of_build`: the parts of a project.
* `Snapshot.Documents.kind_unique`: two documented nodes with the same relative path are documented
  as the same kind of symbol.
* `Project.Built.get?_symbols_iff`: the symbol table holds the documented nodes of the pages and
  nothing else.
-/

namespace ApiPages

/-! ## Building -/

/-- The project is that of a snapshot with settings. -/
structure Project.Built (p : Project) (s : Snapshot) (settings : Settings) : Prop where
  snapshot : p.snapshot = s
  symbols : p.symbols = SymbolTable.ofWalk s.rootName s.pages
  reexports : p.reexports = Dict.ofList ((Reexport.ofWalk s s.modules).filterMap Reexport.entry?)
  externalLinks : p.externalLinks = Project.linksOf settings
  linkBase : p.linkBase = settings.linkBase
  maxDepth : p.maxDepth = settings.maxDepth

theorem Visit.guard_eq_ok {limit : Nat} {walk walk' : List Visit}
    (h : Visit.guard limit walk = .ok walk') : walk' = walk := by
  unfold Visit.guard at h
  split at h
  · cases h
  · cases h; rfl

theorem Project.built_of_build {s : Snapshot} {settings : Settings} {p : Noted Project}
    (h : Project.build s settings = .ok p) :
    p.value.Built s settings ∧
      p.findings = (Reexport.ofWalk s s.modules).filterMap Reexport.finding? := by
  unfold Project.build SymbolTable.build ReexportMap.build at h
  cases hpages : Visit.guard settings.maxDepth s.pages with
  | error f => rw [hpages] at h; cases h
  | ok pages =>
    cases hmodules : Visit.guard settings.maxDepth s.modules with
    | error f => rw [hpages, hmodules] at h; cases h
    | ok modules =>
      rw [hpages, hmodules] at h
      simp only [Except.map, bind, Except.bind, pure, Except.pure, Except.ok.injEq] at h
      subst h
      cases Visit.guard_eq_ok hpages
      cases Visit.guard_eq_ok hmodules
      -- `rfl` alone would open the table of standard links
      refine ⟨⟨?_, ?_, ?_, ?_, ?_, ?_⟩, ?_⟩ <;> with_reducible rfl

/-! ## Kinds of symbols -/

namespace Node

/-- The kind of symbol that a member of a node is; re-exports are none. -/
def kindBelow? (parent n : Node) : Option SymbolKind :=
  match n.info.kind with
  | .module _ => some .module
  | .classType _ _ => some .classType
  | .function _ _ _ _ => some (if parent.isClass then .method else .function)
  | .attr _ _ _ => some (if parent.isClass then .property else .attr)
  | .reexport _ _ => none

section Kinds

variable {parent n : Node}

theorem isReexport_of_kindBelow? {k : SymbolKind} (h : parent.kindBelow? n = some k) :
    n.isReexport = false := by
  unfold kindBelow? at h
  unfold isReexport
  cases hk : n.info.kind <;> simp_all

theorem kindBelow?_of_isModule (h : n.isModule = true) : parent.kindBelow? n = some .module := by
  unfold isModule at h
  unfold kindBelow?
  cases hk : n.info.kind <;> simp_all

theorem kindBelow?_of_isClass (h : n.isClass = true) : parent.kindBelow? n = some .classType := by
  unfold isClass at h
  unfold kindBelow?
  cases hk : n.info.kind <;> simp_all

theorem kindBelow?_of_isFunction (h : n.isFunction = true) :
    parent.kindBelow? n = some (if parent.isClass then .method else .function) := by
  unfold isFunction at h
  unfold kindBelow?
  cases hk : n.info.kind <;> simp_all

theorem kindBelow?_of_isAttribute (h : n.isAttribute = true) :
    parent.kindBelow? n = some (if parent.isClass then .property else .attr) := by
  unfold isAttribute at h
  unfold kindBelow?
  cases hk : n.info.kind <;> simp_all

theorem isClass_of_isModule (h : n.isModule = true) : n.isClass = false := by
  unfold isModule at h
  unfold isClass
  cases hk : n.info.kind <;> simp_all

theorem isModule_of_isPackage (h : n.isPackage = true) : n.isModule = true := by
  unfold isPackage at h
  unfold isModule
  cases hk : n.info.kind <;> simp_all

end Kinds

end Node

namespace Snapshot

/-- How a snapshot may document a node: the root as a module, and any other by whose member it is.
What the root itself declares is no symbol unless it is a module. -/
inductive Documents (s : Snapshot) : Node → SymbolKind → Prop
  | root : s.Documents s.root .module
  | member {p n : Node} {k : SymbolKind} (hp : p ∈ s.nodes) (hn : n ∈ p.children)
      (hk : p.kindBelow? n = some k) (hroot : p = s.root → k = .module) : s.Documents n k

namespace Documents

variable {s : Snapshot} {n m : Node} {k l : SymbolKind}

theorem mem_nodes (h : s.Documents n k) : n ∈ s.nodes := by
  cases h with
  | root => exact s.root_mem_nodes
  | member hp hn _ _ => exact Snapshot.child_mem_nodes hp hn

theorem isReexport_eq_false (hs : s.Sound) (h : s.Documents n k) : n.isReexport = false := by
  cases h with
  | root =>
    have hkind : s.root.kindBelow? s.root = some .module :=
      Node.kindBelow?_of_isModule hs.root_isModule
    exact Node.isReexport_of_kindBelow? hkind
  | member _ _ hk _ => exact Node.isReexport_of_kindBelow? hk

/-- A node is documented as one kind of symbol. -/
theorem kind_eq (hs : s.Sound) (h : s.Documents n k) (h' : s.Documents n l) : k = l := by
  cases h with
  | root =>
    cases h' with
    | root => rfl
    | member hp hn _ _ => exact absurd hn (hs.root_not_mem_children hp)
  | member hp hn hk _ =>
    cases h' with
    | root => exact absurd hn (hs.root_not_mem_children hp)
    | member hq hnq hl _ =>
      cases hs.parent_unique hp hq hn hnq
      exact Option.some.inj (hk.symm.trans hl)

theorem kind_of_path_eq_root (hs : s.Sound) (h : s.Documents n k)
    (hpath : n.path = DottedPath.child s.rootName s.rootName) : k = .module := by
  have hre := h.isReexport_eq_false hs
  cases h with
  | root => rfl
  | member hp hn _ hroot => exact hroot (hs.parent_eq_root hp hn hre hpath)

/-- Two documented nodes with the same relative path are documented as the same kind of symbol. They
may differ: a module that is a member of the root and has its name shares the key of the root. -/
theorem kind_unique (hs : s.Sound) (h : s.Documents n k) (h' : s.Documents m l)
    (hkey : DottedPath.relativeTo s.rootName n.path = DottedPath.relativeTo s.rootName m.path) :
    k = l := by
  rcases hs.path_of_relative_eq (h.mem_nodes) (h'.mem_nodes) hkey with
    rfl | ⟨rfl, hm⟩ | ⟨rfl, hn⟩
  · exact h.kind_eq hs h'
  · rw [h.kind_eq hs .root, h'.kind_of_path_eq_root hs hm]
  · rw [h'.kind_eq hs .root, h.kind_of_path_eq_root hs hn]

end Documents

end Snapshot

/-! ## The symbol table -/

namespace Snapshot

variable {s : Snapshot}

theorem documents_of_isModule {n : Node} (hn : n ∈ s.nodes) (h : n.isModule = true) :
    s.Documents n .module := by
  rcases Node.exists_parent_of_mem_preorder hn with rfl | ⟨p, hp, hnp⟩
  · exact .root
  · exact .member hp hnp (Node.kindBelow?_of_isModule h) fun _ => rfl

/-- The page of a module is that of a node of the snapshot that is a module. -/
theorem module_of_mem_pages (hs : s.Sound) {v : Visit} (hv : v ∈ s.pages) :
    v.module ∈ s.nodes ∧ v.module.isModule = true := by
  obtain ⟨hmem, hroot | hkeep⟩ := Node.walkFrom_modules hv
  · exact ⟨hmem, by rw [hroot]; exact hs.root_isModule⟩
  · have hpackage := (Bool.and_eq_true_iff.mp hkeep).1
    exact ⟨hmem, Node.isModule_of_isPackage hpackage⟩

/-- The first page is that of the root. -/
theorem root_mem_pages (s : Snapshot) : ⟨0, s.root⟩ ∈ s.pages := by
  rw [pages]
  cases s.root with
  | mk i cs =>
    rw [Node.walkFrom_mk]
    exact List.mem_cons_self

theorem mem_declared {m n : Node} (h : n ∈ Contents.declared m) :
    ∃ f ∈ m.children, f.isModule = true ∧ n ∈ f.children := by
  obtain ⟨f, hf, hn⟩ := List.mem_flatMap.mp h
  obtain ⟨hfm, hfile⟩ := List.mem_filter.mp hf
  have hmodule := (Bool.and_eq_true_iff.mp hfile).1
  exact ⟨f, hfm, hmodule, (List.mem_filter.mp hn).1⟩

/-- What a file declares is documented by its kind. -/
theorem documents_of_mem_declared (hs : s.Sound) {m n : Node} {k : SymbolKind} (hm : m ∈ s.nodes)
    (hn : n ∈ Contents.declared m)
    (hk : ∀ f : Node, f.isClass = false → f.kindBelow? n = some k) : s.Documents n k := by
  obtain ⟨f, hf, hmodule, hnf⟩ := mem_declared hn
  refine .member (Snapshot.child_mem_nodes hm hf) hnf (hk f (Node.isClass_of_isModule hmodule)) ?_
  rintro rfl
  exact absurd hf (hs.root_not_mem_children hm)

theorem documents_of_mem_symbolsOfClass (hs : s.Sound) {m c : Node} (hm : m ∈ s.nodes)
    (hc : c ∈ (Contents.ofModule m).classes) {x : Node × SymbolKind}
    (hx : x ∈ SymbolTable.symbolsOfClass c) : s.Documents x.1 x.2 := by
  obtain ⟨hdecl, hclass⟩ := List.mem_filter.mp hc
  obtain ⟨f, hf, -, hcf⟩ := mem_declared hdecl
  have hfmem := Snapshot.child_mem_nodes hm hf
  have hcmem := Snapshot.child_mem_nodes hfmem hcf
  have hcroot : c ≠ s.root := by
    rintro rfl
    exact hs.root_not_mem_children hfmem hcf
  simp only [SymbolTable.symbolsOfClass, List.cons_append, List.mem_cons, List.mem_append,
    List.mem_map] at hx
  rcases hx with rfl | ⟨n, hn, rfl⟩ | ⟨n, hn, rfl⟩
  · exact documents_of_mem_declared hs hm hdecl fun _ _ => Node.kindBelow?_of_isClass hclass
  · obtain ⟨hnc, hown⟩ := List.mem_filter.mp hn
    have hfun := (Bool.and_eq_true_iff.mp hown).1
    refine .member hcmem hnc ?_ fun h => absurd h hcroot
    rw [Node.kindBelow?_of_isFunction hfun, hclass]
    rfl
  · obtain ⟨hnc, hown⟩ := List.mem_filter.mp hn
    have hattr := (Bool.and_eq_true_iff.mp hown).1
    refine .member hcmem hnc ?_ fun h => absurd h hcroot
    rw [Node.kindBelow?_of_isAttribute hattr, hclass]
    rfl

/-- The symbols of a module are documented nodes. -/
theorem documents_of_mem_symbolsOf_module (hs : s.Sound) {m : Node} (hm : m ∈ s.nodes)
    (hmodule : m.isModule = true) {x : Node × SymbolKind} (hx : x ∈ SymbolTable.symbolsOf m) :
    s.Documents x.1 x.2 := by
  simp only [SymbolTable.symbolsOf, List.cons_append, List.mem_cons, List.mem_append,
    List.mem_map, List.mem_flatMap, or_assoc] at hx
  rcases hx with rfl | ⟨n, hn, rfl⟩ | ⟨n, hn, rfl⟩ | ⟨n, hn, rfl⟩ | ⟨c, hc, hx⟩
  · exact documents_of_isModule hm hmodule
  · obtain ⟨hnm, hfile⟩ := List.mem_filter.mp hn
    have hnmodule := (Bool.and_eq_true_iff.mp hfile).1
    exact documents_of_isModule (Snapshot.child_mem_nodes hm hnm) hnmodule
  · obtain ⟨hdecl, hfun⟩ := List.mem_filter.mp hn
    refine documents_of_mem_declared hs hm hdecl fun f hf => ?_
    rw [Node.kindBelow?_of_isFunction hfun, hf]
    rfl
  · obtain ⟨hdecl, hattr⟩ := List.mem_filter.mp hn
    refine documents_of_mem_declared hs hm hdecl fun f hf => ?_
    rw [Node.kindBelow?_of_isAttribute hattr, hf]
    rfl
  · exact documents_of_mem_symbolsOfClass hs hm hc hx

/-- The symbols of a page are documented nodes. -/
theorem documents_of_mem_symbolsOf (hs : s.Sound) {v : Visit} (hv : v ∈ s.pages)
    {x : Node × SymbolKind} (hx : x ∈ SymbolTable.symbolsOf v.module) : s.Documents x.1 x.2 := by
  obtain ⟨hm, hmodule⟩ := module_of_mem_pages hs hv
  exact documents_of_mem_symbolsOf_module hs hm hmodule hx

end Snapshot

namespace Project.Built

variable {p : Project} {s : Snapshot} {settings : Settings}

theorem rootName_eq (hp : p.Built s settings) : p.rootName = s.rootName := by
  rw [Project.rootName, hp.snapshot]

/-- The table holds the symbols of the pages and nothing else. -/
theorem get?_symbols_iff (hp : p.Built s settings) (hs : s.Sound) {key : String} {r : SymbolRef} :
    p.symbols.get? key = some r ↔
      ∃ v ∈ s.pages, ∃ x ∈ SymbolTable.symbolsOf v.module,
        key = DottedPath.relativeTo s.rootName x.1.path ∧ r = SymbolRef.ofPath x.2 key := by
  rw [hp.symbols, SymbolTable.ofWalk, Dict.get?_ofList_eq_some_iff]
  · simp only [List.mem_map, List.mem_flatMap, SymbolTable.entryOf, Prod.mk.injEq]
    constructor
    · rintro ⟨x, ⟨v, hv, hx⟩, rfl, rfl⟩
      exact ⟨v, hv, x, hx, rfl, rfl⟩
    · rintro ⟨v, hv, x, hx, rfl, rfl⟩
      exact ⟨x, ⟨v, hv, hx⟩, rfl, rfl⟩
  · intro a ha b hb hab
    obtain ⟨x, hx, rfl⟩ := List.mem_map.mp ha
    obtain ⟨y, hy, rfl⟩ := List.mem_map.mp hb
    obtain ⟨v, hv, hx⟩ := List.mem_flatMap.mp hx
    obtain ⟨w, hw, hy⟩ := List.mem_flatMap.mp hy
    have hkind := (Snapshot.documents_of_mem_symbolsOf hs hv hx).kind_unique hs
      (Snapshot.documents_of_mem_symbolsOf hs hw hy) hab
    simp only [SymbolTable.entryOf] at hab ⊢
    rw [hkind, hab]

end Project.Built

end ApiPages
