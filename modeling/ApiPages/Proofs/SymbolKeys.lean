import ApiPages.Proofs.NavigationPaths
import ApiPages.Proofs.Tables
import ApiPages.Proofs.Walks

/-!
# Keys and links of symbols

The symbols of a snapshot are told apart by their canonical paths. In the symbol table they have the
paths relative to the root for keys, and the root keeps its name there. So the root shares its key
with a module directly below it that has the same name, and with nothing else. Navigation paths are
told apart where keys are.

Results:

* `Snapshot.symbols_nodup`: no node is documented twice.
* `Snapshot.relativePath_eq_iff`, `Snapshot.navigation_eq_iff`: which symbols share a key, and which
  a navigation path.
* `Dict.size_ofList`: the size of a dictionary is the number of names of its entries.
* `SymbolTable.build_tells_apart`: the symbol table tells all symbols apart but the root and a
  module below it of the same name.
-/

namespace ApiPages

/-- The node declares something, instead of offering what is declared elsewhere. -/
def Node.isDeclaration (n : Node) : Bool := !n.isReexport

theorem Node.isDeclaration_of_kindBelow? {p n : Node} {k : SymbolKind}
    (h : p.kindBelow? n = some k) : n.isDeclaration = true := by
  rw [isDeclaration, isReexport_of_kindBelow? h]
  rfl

theorem Node.isDeclaration_of_isModule {n : Node} (h : n.isModule = true) :
    n.isDeclaration = true := by
  have hkind : n.kindBelow? n = some .module := kindBelow?_of_isModule h
  exact isDeclaration_of_kindBelow? hkind

namespace Snapshot

/-- The symbols of a snapshot, page by page. -/
def symbols (s : Snapshot) : List (Node × SymbolKind) :=
  s.pages.flatMap fun v => SymbolTable.symbolsOf v.module

/-- The modules directly below the root that are documented and have its name. -/
def namesakes (s : Snapshot) : List Node :=
  s.root.children.filter fun n =>
    n.name == s.rootName && (Contents.isFile n || Contents.isDocumentedPackage n)

variable {s : Snapshot}

theorem documents_of_mem_symbols (hs : s.Sound) {x : Node × SymbolKind} (hx : x ∈ s.symbols) :
    s.Documents x.1 x.2 := by
  obtain ⟨v, hv, hx⟩ := List.mem_flatMap.mp hx
  exact documents_of_mem_symbolsOf hs hv hx

theorem eq_of_fst_eq (hs : s.Sound) {x y : Node × SymbolKind} (hx : x ∈ s.symbols)
    (hy : y ∈ s.symbols) (h : x.1 = y.1) : x = y := by
  have hkind := (documents_of_mem_symbols hs hy).kind_eq hs (h ▸ documents_of_mem_symbols hs hx)
  exact Prod.ext h hkind.symm

/-! ## The page of a symbol -/

/-- The symbols of a class are the class and members of it. -/
theorem mem_symbolsOfClass_cases {c : Node} {x : Node × SymbolKind}
    (hx : x ∈ SymbolTable.symbolsOfClass c) :
    x = (c, .classType) ∨
      x.2.isMember = true ∧ x.1 ∈ c.children ∧ x.1.isDeclaration = true := by
  simp only [SymbolTable.symbolsOfClass, List.cons_append, List.mem_cons, List.mem_append,
    List.mem_map] at hx
  rcases hx with rfl | ⟨n, hn, rfl⟩ | ⟨n, hn, rfl⟩
  · exact Or.inl rfl
  · obtain ⟨hnc, hown⟩ := List.mem_filter.mp hn
    have hfun := (Bool.and_eq_true_iff.mp hown).1
    have hkind : c.kindBelow? n = _ := Node.kindBelow?_of_isFunction hfun
    exact Or.inr ⟨rfl, hnc, Node.isDeclaration_of_kindBelow? hkind⟩
  · obtain ⟨hnc, hown⟩ := List.mem_filter.mp hn
    have hattr := (Bool.and_eq_true_iff.mp hown).1
    have hkind : c.kindBelow? n = _ := Node.kindBelow?_of_isAttribute hattr
    exact Or.inr ⟨rfl, hnc, Node.isDeclaration_of_kindBelow? hkind⟩

/-- A symbol of a page is the module itself, or lies as many steps below it as its navigation path
keeps segments together. -/
theorem below_of_mem_symbolsOf {m : Node} {x : Node × SymbolKind}
    (hx : x ∈ SymbolTable.symbolsOf m) :
    x = (m, .module) ∨
      m.Below Node.isDeclaration x.2.leafSegments x.1 ∧
        (x.2 = .module → Contents.isFile x.1 = true) := by
  have hfile : ∀ f ∈ m.children, f.isModule = true → m.Below Node.isDeclaration 1 f := by
    intro f hf hmodule
    exact .step .self hf (Node.isDeclaration_of_isModule hmodule)
  have hdeclared : ∀ n ∈ Contents.declared m, n.isDeclaration = true →
      m.Below Node.isDeclaration 2 n := by
    intro n hn hdecl
    obtain ⟨f, hf, hmodule, hnf⟩ := mem_declared hn
    exact .step (hfile f hf hmodule) hnf hdecl
  simp only [SymbolTable.symbolsOf, List.cons_append, List.mem_cons, List.mem_append,
    List.mem_map, List.mem_flatMap, or_assoc] at hx
  rcases hx with rfl | ⟨n, hn, rfl⟩ | ⟨n, hn, rfl⟩ | ⟨n, hn, rfl⟩ | ⟨c, hc, hx⟩
  · exact Or.inl rfl
  · obtain ⟨hmem, hisFile⟩ := List.mem_filter.mp hn
    have hmodule := (Bool.and_eq_true_iff.mp hisFile).1
    exact Or.inr ⟨hfile n hmem hmodule, fun _ => hisFile⟩
  · obtain ⟨hdecl, hfun⟩ := List.mem_filter.mp hn
    have hkind : m.kindBelow? n = _ := Node.kindBelow?_of_isFunction hfun
    refine Or.inr ⟨hdeclared n hdecl (Node.isDeclaration_of_kindBelow? hkind), fun h => ?_⟩
    cases h
  · obtain ⟨hdecl, hattr⟩ := List.mem_filter.mp hn
    have hkind : m.kindBelow? n = _ := Node.kindBelow?_of_isAttribute hattr
    refine Or.inr ⟨hdeclared n hdecl (Node.isDeclaration_of_kindBelow? hkind), fun h => ?_⟩
    cases h
  · obtain ⟨hdecl, hclass⟩ := List.mem_filter.mp hc
    have hkind : m.kindBelow? c = _ := Node.kindBelow?_of_isClass hclass
    have hc2 := hdeclared c hdecl (Node.isDeclaration_of_kindBelow? hkind)
    rcases mem_symbolsOfClass_cases hx with rfl | ⟨hmember, hxc, hdecl⟩
    · refine Or.inr ⟨hc2, fun h => ?_⟩
      cases h
    · have hleaf : x.2.leafSegments = 3 := by
        cases hk : x.2 <;> rw [hk] at hmember <;> first | rfl | cases hmember
      rw [hleaf]
      refine Or.inr ⟨.step hc2 hxc hdecl, fun hmodule => ?_⟩
      rw [hmodule] at hmember
      cases hmember

/-- The module of a page is no plain file below another module. -/
theorem isFile_of_mem_pages (hs : s.Sound) {v : Visit} (hv : v ∈ s.pages) {p : Node}
    (hp : p ∈ s.nodes) (hmem : v.module ∈ p.children) : Contents.isFile v.module = false := by
  obtain ⟨-, hroot | hkeep⟩ := Node.walkFrom_modules hv
  · rw [hroot] at hmem
    exact absurd hmem (hs.root_not_mem_children hp)
  · have hpackage := (Bool.and_eq_true_iff.mp hkeep).1
    rw [Contents.isFile, hpackage, Bool.not_true, Bool.and_false]

/-- A node is documented on one page only. -/
theorem page_unique (hs : s.Sound) {v w : Visit} (hv : v ∈ s.pages) (hw : w ∈ s.pages)
    {x y : Node × SymbolKind} (hx : x ∈ SymbolTable.symbolsOf v.module)
    (hy : y ∈ SymbolTable.symbolsOf w.module) (h : x.1 = y.1) : v.module = w.module := by
  have hvm := (module_of_mem_pages hs hv).1
  have hwm := (module_of_mem_pages hs hw).1
  have hxy : x = y := eq_of_fst_eq hs (List.mem_flatMap.mpr ⟨v, hv, hx⟩)
    (List.mem_flatMap.mpr ⟨w, hw, hy⟩) h
  subst hxy
  -- a module of a page that is also a file of another page would have to be a package and none
  have hself : ∀ {a b : Visit}, a ∈ s.pages → b.module ∈ s.nodes →
      ¬ (b.module.Below Node.isDeclaration 1 a.module ∧ Contents.isFile a.module = true) := by
    rintro a b ha hb ⟨hbelow, hfile⟩
    cases hbelow with
    | step hbelow hmem _ =>
      cases hbelow
      rw [isFile_of_mem_pages hs ha hb hmem] at hfile
      cases hfile
  rcases below_of_mem_symbolsOf hx with hx | ⟨hbx, hfx⟩
  · rcases below_of_mem_symbolsOf hy with hy | ⟨hby, hfy⟩
    · exact congrArg Prod.fst (hx.symm.trans hy)
    · rw [hx] at hby hfy
      exact absurd ⟨hby, hfy rfl⟩ (hself hv hwm)
  · rcases below_of_mem_symbolsOf hy with hy | ⟨hby, -⟩
    · rw [hy] at hbx hfx
      exact absurd ⟨hbx, hfx rfl⟩ (hself hw hvm)
    · exact hs.above_unique hvm hwm hbx hby

/-! ## Every symbol once -/

/-- Members of two nodes are told apart if the nodes are. -/
theorem nodup_flatMap_members (hs : s.Sound) {ps : List Node} (hps : ps.Nodup)
    (hmem : ∀ p ∈ ps, p ∈ s.nodes) (keep : Node → Bool) :
    (ps.flatMap fun p => p.children.filter keep).Nodup := by
  rw [List.nodup_flatMap]
  refine ⟨fun p hp => (hs.children_nodup (hmem p hp)).filter _, ?_⟩
  refine hps.pairwise_of_forall_ne fun p hp q hq hne => ?_
  intro n hnp hnq
  exact hne (hs.parent_unique (hmem p hp) (hmem q hq) (List.mem_filter.mp hnp).1
    (List.mem_filter.mp hnq).1)

theorem nodup_map_kind {ns : List Node} (hns : ns.Nodup) (k : SymbolKind) :
    (ns.map fun n => (n, k)).Nodup :=
  hns.map fun _ _ h => congrArg Prod.fst h

theorem symbolsOfClass_nodup (hs : s.Sound) {c : Node} (hc : c ∈ s.nodes) :
    (SymbolTable.symbolsOfClass c).Nodup := by
  have hchildren := hs.children_nodup hc
  rw [SymbolTable.symbolsOfClass, List.nodup_append]
  refine ⟨List.nodup_cons.mpr ⟨?_, nodup_map_kind (hchildren.filter _) _⟩,
    nodup_map_kind (hchildren.filter _) _, ?_⟩
  · simp
  · simp

theorem symbolsOfClasses_nodup (hs : s.Sound) {cs : List Node} (hcs : cs.Nodup)
    (hmem : ∀ c ∈ cs, c ∈ s.nodes) : (cs.flatMap SymbolTable.symbolsOfClass).Nodup := by
  rw [List.nodup_flatMap]
  refine ⟨fun c hc => symbolsOfClass_nodup hs (hmem c hc), ?_⟩
  refine hcs.pairwise_of_forall_ne fun c hc d hd hne => ?_
  intro x hxc hxd
  rcases mem_symbolsOfClass_cases hxc with rfl | ⟨hmember, hxc, -⟩
  · rcases mem_symbolsOfClass_cases hxd with h | ⟨hmember, -, -⟩
    · exact hne (congrArg Prod.fst h)
    · cases hmember
  · rcases mem_symbolsOfClass_cases hxd with rfl | ⟨-, hxd, -⟩
    · cases hmember
    · exact hne (hs.parent_unique (hmem c hc) (hmem d hd) hxc hxd)

theorem symbolsOf_nodup (hs : s.Sound) {m : Node} (hm : m ∈ s.nodes) :
    (SymbolTable.symbolsOf m).Nodup := by
  have hfiles : (Contents.filesOf m).Nodup := (hs.children_nodup hm).filter _
  have hself : m ∉ Contents.filesOf m := fun h =>
    hs.not_mem_own_children hm (List.mem_filter.mp h).1
  have hdeclared : (Contents.declared m).Nodup :=
    nodup_flatMap_members hs hfiles
      (fun f hf => child_mem_nodes hm (List.mem_filter.mp hf).1) Node.isDocumented
  have hclasses : ((Contents.ofModule m).classes.flatMap SymbolTable.symbolsOfClass).Nodup := by
    refine symbolsOfClasses_nodup hs (hdeclared.filter _) fun c hc => ?_
    obtain ⟨f, hf, -, hcf⟩ := mem_declared (List.mem_filter.mp hc).1
    exact child_mem_nodes (child_mem_nodes hm hf) hcf
  have hkinds : ∀ x ∈ (Contents.ofModule m).classes.flatMap SymbolTable.symbolsOfClass,
      x.2 = .classType ∨ x.2.isMember = true := by
    intro x hx
    obtain ⟨c, -, hx⟩ := List.mem_flatMap.mp hx
    rcases mem_symbolsOfClass_cases hx with rfl | ⟨hmember, -, -⟩
    · exact Or.inl rfl
    · exact Or.inr hmember
  -- symbols of different kinds are told apart by their kinds
  rw [SymbolTable.symbolsOf, List.nodup_append, List.nodup_append, List.nodup_append]
  refine ⟨⟨⟨List.nodup_cons.mpr ⟨?_, nodup_map_kind hfiles _⟩,
    nodup_map_kind (hdeclared.filter _) _, ?_⟩, nodup_map_kind (hdeclared.filter _) _, ?_⟩,
    hclasses, ?_⟩
  · rw [List.mem_map]
    rintro ⟨f, hf, heq⟩
    cases heq
    exact hself hf
  · simp
  · simp only [List.mem_append, List.mem_cons, List.mem_map]
    rintro x ((rfl | ⟨n, -, rfl⟩) | ⟨n, -, rfl⟩) y ⟨k, -, rfl⟩ heq <;> cases heq
  · simp only [List.mem_append, List.mem_cons, List.mem_map]
    rintro x hx y hy rfl
    have hk := hkinds x hy
    rcases hx with ((rfl | ⟨n, -, rfl⟩) | ⟨n, -, rfl⟩) | ⟨n, -, rfl⟩ <;>
      simp [SymbolKind.isMember] at hk

/-- No node is documented twice. -/
theorem symbols_nodup (hs : s.Sound) : (s.symbols.map Prod.fst).Nodup := by
  have hpairs : s.symbols.Nodup := by
    rw [symbols, List.nodup_flatMap]
    refine ⟨fun v hv => symbolsOf_nodup hs (module_of_mem_pages hs hv).1, ?_⟩
    have hpages := hs.pages_nodup
    rw [List.nodup_iff_pairwise_ne, List.pairwise_map] at hpages
    refine hpages.imp_of_mem fun {v w} hv hw hne => ?_
    intro x hxv hxw
    exact hne (page_unique hs hv hw hxv hxw rfl)
  exact hpairs.map_on fun x hx y hy h => eq_of_fst_eq hs hx hy h

/-! ## Keys -/

theorem mem_namesakes_iff (hs : s.Sound) {n : Node} :
    n ∈ s.namesakes ↔
      n ∈ s.symbols.map Prod.fst ∧ n.path = DottedPath.child s.rootName s.rootName := by
  have hroot := s.root_mem_nodes
  rw [namesakes, List.mem_filter, Bool.and_eq_true, beq_iff_eq, Bool.or_eq_true]
  constructor
  · rintro ⟨hmem, hname, hkind⟩
    refine ⟨?_, by rw [hs.child_path _ hroot n hmem, hs.root_path, hname]⟩
    refine List.mem_map.mpr ⟨(n, .module), List.mem_flatMap.mpr ?_, rfl⟩
    rcases hkind with hfile | hpackage
    · refine ⟨⟨0, s.root⟩, s.root_mem_pages, ?_⟩
      have hfiles : n ∈ (Contents.ofModule s.root).files := List.mem_filter.mpr ⟨hmem, hfile⟩
      simp [SymbolTable.symbolsOf, hfiles]
    · refine ⟨⟨1, n⟩, Node.member_mem_walkFrom s.root_mem_pages hmem hpackage, ?_⟩
      simp [SymbolTable.symbolsOf]
  · rintro ⟨hmem, hpath⟩
    obtain ⟨⟨n, k⟩, hx, rfl⟩ := List.mem_map.mp hmem
    have hdoc := documents_of_mem_symbols hs hx
    have hne : n ≠ s.root := by
      rintro rfl
      rw [hs.root_path] at hpath
      exact DottedPath.child_ne_name _ _ hpath.symm
    obtain ⟨p, hp, hnp⟩ := (Node.exists_parent_of_mem_preorder hdoc.mem_nodes).resolve_left hne
    have hre := hdoc.isReexport_eq_false hs
    cases hs.parent_eq_root hp hnp hre hpath
    have hname : n.name = s.rootName := by
      have h := (hs.child_path _ hroot n hnp).symm.trans hpath
      exact (DottedPath.child_inj (hs.dot_not_mem_name hdoc.mem_nodes hre)
        hs.dot_not_mem_rootName h).2
    refine ⟨hnp, hname, ?_⟩
    obtain ⟨v, hv, hx⟩ := List.mem_flatMap.mp hx
    rcases below_of_mem_symbolsOf hx with heq | ⟨-, hfile⟩
    · obtain ⟨rfl, -⟩ := Prod.mk.inj heq
      exact Or.inr ((Node.walkFrom_modules hv).2.resolve_left hne)
    · exact Or.inl (hfile (hdoc.kind_of_path_eq_root hs hpath))

/-- One of the nodes is the root, and the other one a module below it of the same name. -/
def AreNamesakes (s : Snapshot) (n m : Node) : Prop :=
  n = s.root ∧ m ∈ s.namesakes ∨ m = s.root ∧ n ∈ s.namesakes

/-- Only the root and its namesake share a key. -/
theorem relativePath_eq_iff (hs : s.Sound) {x y : Node × SymbolKind} (hx : x ∈ s.symbols)
    (hy : y ∈ s.symbols) (hne : x.1 ≠ y.1) :
    DottedPath.relativeTo s.rootName x.1.path = DottedPath.relativeTo s.rootName y.1.path ↔
      s.AreNamesakes x.1 y.1 := by
  have hxn := (documents_of_mem_symbols hs hx).mem_nodes
  have hyn := (documents_of_mem_symbols hs hy).mem_nodes
  constructor
  · intro hkey
    rcases hs.path_of_relative_eq hxn hyn hkey with h | ⟨hroot, hpath⟩ | ⟨hroot, hpath⟩
    · exact absurd h hne
    · exact Or.inl ⟨hroot, (mem_namesakes_iff hs).mpr ⟨List.mem_map_of_mem hy, hpath⟩⟩
    · exact Or.inr ⟨hroot, (mem_namesakes_iff hs).mpr ⟨List.mem_map_of_mem hx, hpath⟩⟩
  · rintro (⟨hroot, hmem⟩ | ⟨hroot, hmem⟩)
    · rw [hroot, hs.root_path, ((mem_namesakes_iff hs).mp hmem).2, DottedPath.relativeTo_self,
        DottedPath.relativeTo_child]
    · rw [hroot, hs.root_path, ((mem_namesakes_iff hs).mp hmem).2, DottedPath.relativeTo_self,
        DottedPath.relativeTo_child]

/-! ## Navigation paths -/

/-- Symbols are reached from the root through declarations. -/
theorem exists_below_of_mem_symbols {x : Node × SymbolKind} (hx : x ∈ s.symbols) :
    ∃ k, s.root.Below Node.isDeclaration k x.1 := by
  obtain ⟨v, hv, hxv⟩ := List.mem_flatMap.mp hx
  obtain ⟨k, hpage, -⟩ := Node.mem_walkFrom_iff.mp hv
  have hpage : s.root.Below Node.isDeclaration k v.module := by
    refine hpage.mono fun n hn => ?_
    have hpackage := (Bool.and_eq_true_iff.mp hn).1
    exact Node.isDeclaration_of_isModule (Node.isModule_of_isPackage hpackage)
  rcases below_of_mem_symbolsOf hxv with rfl | ⟨hbelow, -⟩
  · exact ⟨k, hpage⟩
  · exact ⟨_, hpage.trans hbelow⟩

theorem slash_not_mem_path (hs : s.Sound)
    (hslash : ∀ n ∈ s.nodes, n.isReexport = false → '/' ∉ n.name.toList) {n : Node} {k : Nat}
    (h : s.root.Below Node.isDeclaration k n) : '/' ∉ n.path.toList := by
  induction h with
  | self =>
    rw [hs.root_path]
    have hre := Documents.root.isReexport_eq_false hs
    exact hslash s.root s.root_mem_nodes hre
  | @step k p c hp hc hkeep ih =>
    rw [hs.child_path p hp.mem_preorder c hc, DottedPath.toList_child, List.mem_append,
      List.mem_cons, not_or, not_or]
    have hmem : c ∈ s.nodes := child_mem_nodes hp.mem_preorder hc
    exact ⟨ih, by decide, hslash c hmem (by simpa [Node.isDeclaration] using hkeep)⟩

theorem slash_not_mem_key (hs : s.Sound)
    (hslash : ∀ n ∈ s.nodes, n.isReexport = false → '/' ∉ n.name.toList) {x : Node × SymbolKind}
    (hx : x ∈ s.symbols) : '/' ∉ (DottedPath.relativeTo s.rootName x.1.path).toList := by
  obtain ⟨k, hbelow⟩ := exists_below_of_mem_symbols hx
  have hpath := slash_not_mem_path hs hslash hbelow
  rcases hs.path_cases (documents_of_mem_symbols hs hx).mem_nodes with hroot | ⟨rest, hrest⟩
  · rwa [hroot, hs.root_path, DottedPath.relativeTo_self, ← hs.root_path, ← hroot]
  · rw [hrest, DottedPath.toList_child] at hpath
    rw [hrest, DottedPath.relativeTo_child]
    exact fun hmem => hpath (List.mem_append_right _ (List.mem_cons_of_mem _ hmem))

/-- Only the root and its namesake share a navigation path. -/
theorem navigation_eq_iff (hs : s.Sound)
    (hslash : ∀ n ∈ s.nodes, n.isReexport = false → '/' ∉ n.name.toList)
    {x y : Node × SymbolKind} (hx : x ∈ s.symbols) (hy : y ∈ s.symbols) (hne : x.1 ≠ y.1) :
    navigationPath x.2 (DottedPath.relativeTo s.rootName x.1.path) =
        navigationPath y.2 (DottedPath.relativeTo s.rootName y.1.path) ↔
      s.AreNamesakes x.1 y.1 := by
  rw [← relativePath_eq_iff hs hx hy hne]
  constructor
  · intro h
    exact navigationPath_inj (slash_not_mem_key hs hslash hx) (slash_not_mem_key hs hslash hy) h
  · intro h
    have hkind := (documents_of_mem_symbols hs hx).kind_unique hs (documents_of_mem_symbols hs hy) h
    rw [hkind, h]

end Snapshot

/-! ## The size of the table -/

theorem Dict.keys_nodup {β : Type} (d : Dict β) : d.keys.Nodup := by
  rw [keys, List.nodup_iff_pairwise_ne, List.pairwise_map]
  refine d.sorted.imp fun {a b} hlt heq => ?_
  rw [heq] at hlt
  exact String.lt_irrefl _ hlt

/-- The size of a dictionary is the number of different names among its entries. -/
theorem Dict.size_ofList {β : Type} {es : List (String × β)} {names : List String}
    (hnodup : names.Nodup) (hnames : ∀ k, k ∈ names ↔ k ∈ es.map Prod.fst) :
    (ofList es).size = names.length := by
  have hmem : ∀ k, k ∈ (ofList es).keys ↔ k ∈ names := by
    intro k
    rw [mem_keys_iff, hnames]
    exact contains_ofList_iff
  rw [← length_keys]
  exact ((List.perm_ext_iff_of_nodup (keys_nodup _) hnodup).mpr hmem).length_eq

namespace Snapshot

variable {s : Snapshot}

/-- There is at most one module below the root that has its name. -/
theorem length_namesakes_le (hs : s.Sound) : s.namesakes.length ≤ 1 := by
  have hnodup : s.namesakes.Nodup := (hs.children_nodup s.root_mem_nodes).filter _
  have heq : ∀ n ∈ s.namesakes, ∀ m ∈ s.namesakes, n = m := by
    intro n hn m hm
    obtain ⟨hn, hnpath⟩ := (mem_namesakes_iff hs).mp hn
    obtain ⟨hm, hmpath⟩ := (mem_namesakes_iff hs).mp hm
    obtain ⟨x, hx, rfl⟩ := List.mem_map.mp hn
    obtain ⟨y, hy, rfl⟩ := List.mem_map.mp hm
    exact hs.eq_of_path (documents_of_mem_symbols hs hx).mem_nodes
      (documents_of_mem_symbols hs hy).mem_nodes (hnpath.trans hmpath.symm)
  cases hns : s.namesakes with
  | nil => exact Nat.zero_le 1
  | cons n ns =>
    cases ns with
    | nil => exact Nat.le_refl 1
    | cons m ns =>
      rw [hns] at hnodup heq
      have hnm := heq n (by simp) m (by simp)
      rw [hnm, List.nodup_cons] at hnodup
      exact absurd List.mem_cons_self hnodup.1

/-- The symbol has the key of the root without being the root. -/
def isNamesake (s : Snapshot) (x : Node × SymbolKind) : Bool :=
  x.1.path == DottedPath.child s.rootName s.rootName

theorem length_filter_isNamesake (hs : s.Sound) :
    (s.symbols.filter s.isNamesake).length = s.namesakes.length := by
  rw [← List.length_map Prod.fst]
  refine ((List.perm_ext_iff_of_nodup ?_ ?_).mpr fun n => ?_).length_eq
  · exact (symbols_nodup hs).sublist (List.filter_sublist.map _)
  · exact (hs.children_nodup s.root_mem_nodes).filter _
  · rw [mem_namesakes_iff hs, List.mem_map, List.mem_map]
    constructor
    · rintro ⟨x, hx, rfl⟩
      obtain ⟨hx, hshared⟩ := List.mem_filter.mp hx
      exact ⟨⟨x, hx, rfl⟩, beq_iff_eq.mp hshared⟩
    · rintro ⟨⟨x, hx, rfl⟩, hpath⟩
      exact ⟨x, List.mem_filter.mpr ⟨hx, beq_iff_eq.mpr hpath⟩, rfl⟩

end Snapshot

namespace SymbolTable

variable {s : Snapshot}

/-- The table has an entry for every symbol but the namesake of the root, whose key is that of the
root. -/
theorem size_ofWalk (hs : s.Sound) :
    (ofWalk s.rootName s.pages).size + s.namesakes.length = s.symbols.length := by
  let key : Node × SymbolKind → String := fun x => DottedPath.relativeTo s.rootName x.1.path
  have hpairs : s.symbols.Nodup := List.Nodup.of_map _ (Snapshot.symbols_nodup hs)
  have hroot : (s.root, .module) ∈ s.symbols.filter fun x => !s.isNamesake x := by
    refine List.mem_filter.mpr ⟨List.mem_flatMap.mpr ⟨_, s.root_mem_pages, ?_⟩, ?_⟩
    · simp [symbolsOf]
    · have hne : s.rootName ≠ DottedPath.child s.rootName s.rootName :=
        (DottedPath.child_ne_name _ _).symm
      simpa [Snapshot.isNamesake, hs.root_path] using hne
  -- without the namesake of the root the keys are told apart, and none is missing
  have hsize : (ofWalk s.rootName s.pages).size =
      ((s.symbols.filter fun x => !s.isNamesake x).map key).length := by
    refine Dict.size_ofList ?_ fun k => ?_
    · refine (hpairs.filter _).map_on fun x hx y hy hkey => ?_
      obtain ⟨hx, hxs⟩ := List.mem_filter.mp hx
      obtain ⟨hy, hys⟩ := List.mem_filter.mp hy
      refine Snapshot.eq_of_fst_eq hs hx hy (by_contra fun hne => ?_)
      rcases (Snapshot.relativePath_eq_iff hs hx hy hne).mp hkey with ⟨-, hmem⟩ | ⟨-, hmem⟩
      · have hpath := ((Snapshot.mem_namesakes_iff hs).mp hmem).2
        simp [Snapshot.isNamesake, hpath] at hys
      · have hpath := ((Snapshot.mem_namesakes_iff hs).mp hmem).2
        simp [Snapshot.isNamesake, hpath] at hxs
    · simp only [List.map_map, List.mem_map, Function.comp_apply, entryOf]
      constructor
      · rintro ⟨x, hx, rfl⟩
        exact ⟨x, (List.mem_filter.mp hx).1, rfl⟩
      · rintro ⟨x, hx, rfl⟩
        by_cases hshared : s.isNamesake x = true
        · refine ⟨_, hroot, ?_⟩
          show DottedPath.relativeTo s.rootName s.root.path = _
          rw [hs.root_path, beq_iff_eq.mp hshared, DottedPath.relativeTo_self,
            DottedPath.relativeTo_child]
        · exact ⟨x, List.mem_filter.mpr ⟨hx, by simpa using hshared⟩, rfl⟩
  have hsplit := List.length_eq_length_filter_add (l := s.symbols) s.isNamesake
  have hnamesakes := Snapshot.length_filter_isNamesake hs
  rw [hsize, List.length_map]
  omega

/-- The symbol table tells the symbols of a snapshot apart, except for one pair. No node is
documented twice. Two symbols share their key, and likewise their navigation path, exactly if one is
the root and the other one a documented module directly below it that has its name. There is at most
one such module, and the table has an entry for every symbol but that one. -/
theorem build_tells_apart {d : Declaration} {limit : Nat} {table : SymbolTable}
    (hload : Snapshot.load d = .ok s) (htable : build s limit = .ok table)
    (hslash : ∀ n ∈ s.nodes, n.isReexport = false → '/' ∉ n.name.toList) :
    (s.symbols.map Prod.fst).Nodup ∧
    (∀ x ∈ s.symbols, ∀ y ∈ s.symbols, x.1 ≠ y.1 →
      ((entryOf s.rootName x).1 = (entryOf s.rootName y).1 ↔ s.AreNamesakes x.1 y.1) ∧
      ((entryOf s.rootName x).2.navigation = (entryOf s.rootName y).2.navigation ↔
        s.AreNamesakes x.1 y.1)) ∧
    table.size + s.namesakes.length = s.symbols.length ∧ s.namesakes.length ≤ 1 := by
  have hs := Snapshot.Sound.of_load hload
  refine ⟨Snapshot.symbols_nodup hs, fun x hx y hy hne => ?_, ?_, Snapshot.length_namesakes_le hs⟩
  · exact ⟨Snapshot.relativePath_eq_iff hs hx hy hne,
      Snapshot.navigation_eq_iff hs hslash hx hy hne⟩
  · rw [build] at htable
    cases hguard : Visit.guard limit s.pages with
    | error f => rw [hguard] at htable; cases htable
    | ok walk =>
      rw [hguard] at htable
      cases htable
      cases Visit.guard_eq_ok hguard
      exact size_ofWalk hs

/-- A package with a file of the given name, a class in it and a method of that class. -/
def packageWithFile (name : String) : Declaration :=
  .mk { DeclFields.named .module "p" with
      filepath := some "p/__init__.py", docstring := some "Root." }
    [.mk { DeclFields.named .module name with filepath := some "p/file.py" }
      [.mk { DeclFields.named .classType "X" with docstring := some "A class." }
        [.mk { DeclFields.named .function "run" with docstring := some "Runs." } []]]]

/-- All four symbols of the package have entries if its file has a name of its own. -/
theorem packageWithFile_told_apart :
    ∃ s table, Snapshot.load (packageWithFile "core") = .ok s ∧ build s 10 = .ok table ∧
      (∀ n ∈ s.nodes, n.isReexport = false → '/' ∉ n.name.toList) ∧ s.namesakes.length = 0 ∧
      table.size = s.symbols.length ∧ s.symbols.length = 4 := by
  refine ⟨⟨Node.ofDeclaration (packageWithFile "core")⟩, _, rfl, rfl, by decide +kernel,
    by decide +kernel, ?_, by decide +kernel⟩
  have htable : build ⟨Node.ofDeclaration (packageWithFile "core")⟩ 10 = .ok _ := rfl
  have h := build_tells_apart (d := packageWithFile "core") rfl htable (by decide +kernel)
  exact h.2.2.1

/-- A file that has the name of the package is not told apart from it: the two share a key and a
navigation path, and the table has an entry less than there are symbols. -/
theorem packageWithFile_rootName_shared :
    ∃ s table x y, Snapshot.load (packageWithFile "p") = .ok s ∧ build s 10 = .ok table ∧
      (∀ n ∈ s.nodes, n.isReexport = false → '/' ∉ n.name.toList) ∧
      x ∈ s.symbols ∧ y ∈ s.symbols ∧ x.1 ≠ y.1 ∧
      (entryOf s.rootName x).1 = (entryOf s.rootName y).1 ∧
      (entryOf s.rootName x).2.navigation = (entryOf s.rootName y).2.navigation ∧
      table.size = 3 ∧ s.symbols.length = 4 := by
  refine ⟨⟨Node.ofDeclaration (packageWithFile "p")⟩, _,
    (Node.ofDeclaration (packageWithFile "p"), .module),
    ((Node.ofDeclaration (packageWithFile "p")).children.head (by decide), .module), rfl, rfl,
    by decide +kernel, List.mem_cons_self, List.mem_cons_of_mem _ List.mem_cons_self, ?_,
    by decide +kernel, by decide +kernel, by decide +kernel, by decide +kernel⟩
  intro h
  have hpath := congrArg Node.path h
  revert hpath
  decide +kernel

end SymbolTable

end ApiPages
