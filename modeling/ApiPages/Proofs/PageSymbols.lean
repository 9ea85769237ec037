import ApiPages.Proofs.DeclarationNames
import ApiPages.Proofs.ReexportChains

/-!
# Pages and the symbol table

The symbol table and the pages are made by two walks over the snapshot that select the same symbols.
The table holds what the pages show, so no link into the project leads to a symbol without a place.

Results:

* `Project.shows_pageOf_iff`: a page shows the symbols of its module.
* `Project.get?_references_own`: a class or a function links its own name.
* `Project.pages_agree_with_symbols`: the table holds what the pages show, with the navigation paths
  that links lead to.
-/

namespace ApiPages

/-- The page of the module at `modulePath` shows a symbol of a kind under a path relative to the
root. An entry of a file has no such path, and is given that of a member of the module. -/
inductive Page.Shows (root modulePath : String) (page : Page) : String → SymbolKind → Prop
  | self : page.Shows root modulePath page.path .module
  | file {f : FileEntry} (hf : f ∈ page.files) :
      page.Shows root modulePath
        (DottedPath.relativeTo root (DottedPath.child modulePath f.name)) .module
  | classType {c : ClassEntry} (hc : c ∈ page.types) :
      page.Shows root modulePath c.path .classType
  | function {f : CallableEntry} (hf : f ∈ page.callables) :
      page.Shows root modulePath f.path .function
  | attr {a : AttributeEntry} (ha : a ∈ page.attributes) :
      page.Shows root modulePath a.path .attr
  | method {c : ClassEntry} {f : CallableEntry} (hc : c ∈ page.types) (hf : f ∈ c.callables) :
      page.Shows root modulePath f.path .method
  | property {c : ClassEntry} {a : AttributeEntry} (hc : c ∈ page.types) (ha : a ∈ c.attributes) :
      page.Shows root modulePath a.path .property

namespace Project

variable (p : Project)

/-! ## Entries of a page -/

section Entries

variable (m n : Node) (role : String)

theorem children_pageOf :
    (p.pageOf m).value.children = (Contents.ofModule m).packages.map childEntry := by
  simp [pageOf]

@[simp] theorem types_pageOf :
    (p.pageOf m).value.types =
      (Contents.ofModule m).classes.map fun n => (p.classEntry n).value := by
  simp [pageOf]

@[simp] theorem callables_pageOf :
    (p.pageOf m).value.callables =
      (Contents.ofModule m).functions.map fun n => (p.callableEntry "function" n).value := by
  simp [pageOf]

@[simp] theorem files_pageOf :
    (p.pageOf m).value.files =
      (Contents.ofModule m).files.map fun n => (p.fileEntry n).value := by
  simp [pageOf]

@[simp] theorem mem_attributes_pageOf {a : AttributeEntry} :
    a ∈ (p.pageOf m).value.attributes ↔
      a ∈ (Contents.ofModule m).attributes.map fun n => (p.attributeEntry "global" n).value := by
  simp [pageOf]

@[simp] theorem callables_classEntry :
    (p.classEntry n).value.callables =
      (Contents.methods n).map fun n => (p.callableEntry "method" n).value := by
  simp [classEntry]

@[simp] theorem attributes_classEntry :
    (p.classEntry n).value.attributes =
      (Contents.classAttributes n).map fun n => (p.attributeEntry "attribute" n).value := by
  simp [classEntry]

@[simp] theorem name_fileEntry : (p.fileEntry n).value.name = n.name := rfl

end Entries

variable {p} {s : Snapshot} {settings : Settings}

theorem Built.relativePath_eq (hp : p.Built s settings) (n : Node) :
    p.relativePath n = DottedPath.relativeTo s.rootName n.path := by
  rw [relativePath, hp.rootName_eq]

/-- A page shows the symbols of its module, each as the kind that it has in the symbol table. -/
theorem shows_pageOf_iff (hp : p.Built s settings) (hs : s.Sound) {m : Node} (hm : m ∈ s.nodes)
    {key : String} {kind : SymbolKind} :
    (p.pageOf m).value.Shows s.rootName m.path key kind ↔
      ∃ n, (n, kind) ∈ SymbolTable.symbolsOf m ∧
        key = DottedPath.relativeTo s.rootName n.path := by
  have hfile : ∀ f ∈ (Contents.ofModule m).files, DottedPath.child m.path f.name = f.path :=
    fun f hf => (hs.child_path m hm f (List.mem_filter.mp hf).1).symm
  simp only [← hp.relativePath_eq]
  constructor
  · intro h
    cases h with
    | self => exact ⟨m, by simp [SymbolTable.symbolsOf], rfl⟩
    | file hf =>
      obtain ⟨n, hn, rfl⟩ := List.mem_map.mp (p.files_pageOf m ▸ hf)
      refine ⟨n, by simp [SymbolTable.symbolsOf, hn], ?_⟩
      rw [name_fileEntry, hfile n hn, hp.relativePath_eq]
    | classType hc =>
      obtain ⟨n, hn, rfl⟩ := List.mem_map.mp (p.types_pageOf m ▸ hc)
      exact ⟨n, by simp [SymbolTable.symbolsOf, SymbolTable.symbolsOfClass, hn], rfl⟩
    | function hf =>
      obtain ⟨n, hn, rfl⟩ := List.mem_map.mp (p.callables_pageOf m ▸ hf)
      exact ⟨n, by simp [SymbolTable.symbolsOf, hn], rfl⟩
    | attr ha =>
      obtain ⟨n, hn, rfl⟩ := List.mem_map.mp ((p.mem_attributes_pageOf m).mp ha)
      exact ⟨n, by simp [SymbolTable.symbolsOf, hn], rfl⟩
    | method hc hf =>
      obtain ⟨c, hmem, rfl⟩ := List.mem_map.mp (p.types_pageOf m ▸ hc)
      obtain ⟨n, hn, rfl⟩ := List.mem_map.mp (p.callables_classEntry c ▸ hf)
      refine ⟨n, ?_, rfl⟩
      simp only [SymbolTable.symbolsOf, List.mem_append, List.mem_flatMap]
      exact Or.inr ⟨c, hmem, by simp [SymbolTable.symbolsOfClass, hn]⟩
    | property hc ha =>
      obtain ⟨c, hmem, rfl⟩ := List.mem_map.mp (p.types_pageOf m ▸ hc)
      obtain ⟨n, hn, rfl⟩ := List.mem_map.mp (p.attributes_classEntry c ▸ ha)
      refine ⟨n, ?_, rfl⟩
      simp only [SymbolTable.symbolsOf, List.mem_append, List.mem_flatMap]
      exact Or.inr ⟨c, hmem, by simp [SymbolTable.symbolsOfClass, hn]⟩
  · rintro ⟨n, hn, rfl⟩
    simp only [SymbolTable.symbolsOf, SymbolTable.symbolsOfClass, List.cons_append, List.mem_cons,
      List.mem_append, List.mem_map, List.mem_flatMap, or_assoc, Prod.mk.injEq] at hn
    rcases hn with ⟨rfl, rfl⟩ | ⟨f, hf, rfl, rfl⟩ | ⟨f, hf, rfl, rfl⟩ | ⟨a, ha, rfl, rfl⟩ |
      ⟨c, hc, ⟨rfl, rfl⟩ | ⟨f, hf, rfl, rfl⟩ | ⟨a, ha, rfl, rfl⟩⟩
    · exact .self
    · rw [hp.relativePath_eq, ← hfile f hf]
      exact .file (f := (p.fileEntry f).value) (p.files_pageOf m ▸ List.mem_map_of_mem hf)
    · exact .function (p.callables_pageOf m ▸ List.mem_map_of_mem hf)
    · exact .attr ((p.mem_attributes_pageOf m).mpr (List.mem_map_of_mem ha))
    · exact .classType (p.types_pageOf m ▸ List.mem_map_of_mem hc)
    · exact .method (p.types_pageOf m ▸ List.mem_map_of_mem hc)
        (p.callables_classEntry c ▸ List.mem_map_of_mem hf)
    · exact .property (p.types_pageOf m ▸ List.mem_map_of_mem hc)
        (p.attributes_classEntry c ▸ List.mem_map_of_mem ha)

/-! ## Links to symbols -/

/-- A symbol of a page is linked to its own place. -/
theorem Built.resolve_of_mem_symbolsOf (hp : p.Built s settings) (hs : s.Sound) {v : Visit}
    (hv : v ∈ s.pages) {x : Node × SymbolKind} (hx : x ∈ SymbolTable.symbolsOf v.module) :
    (p.resolve x.1.path).value =
      some ("@nav" ++ settings.linkBase ++ "/" ++ navigationPath x.2 (p.relativePath x.1)) := by
  have hmem := (Snapshot.documents_of_mem_symbolsOf hs hv hx).mem_nodes
  have hinternal : p.isInternal x.1.path = true := by
    rw [isInternal, hp.rootName_eq]
    exact hs.isInternal_path hmem
  have hsymbol : p.symbolAt x.1.path = some (SymbolRef.ofPath x.2 (p.relativePath x.1)) :=
    (hp.get?_symbols_iff hs).mpr ⟨v, hv, x, hx, hp.relativePath_eq x.1, rfl⟩
  have hnav : p.navigationOf x.1.path = some (navigationPath x.2 (p.relativePath x.1)) :=
    follow_of_symbolAt hsymbol _
  rw [resolve, if_pos hinternal, hnav, Noted.value_pure, navigationLink, hp.linkBase]

/-- A class or a function links its own name, whatever the names in its declaration are: its own is
the last to be linked. -/
theorem get?_references_own {n : Node} (hown : n.ownNames = [⟨n.name, n.path⟩]) :
    (p.codeOf n).value.references.get? n.name = some (p.resolve n.path).value := by
  rw [references_codeOf, Dict.get?_ofList, Node.shownNames, hown, List.map_append,
    List.reverse_append]
  simp

theorem Built.get?_references_name (hp : p.Built s settings) (hs : s.Sound) {v : Visit}
    (hv : v ∈ s.pages) {n : Node} {kind : SymbolKind}
    (hn : (n, kind) ∈ SymbolTable.symbolsOf v.module) (hown : n.ownNames = [⟨n.name, n.path⟩]) :
    (p.codeOf n).value.references.get? n.name =
      some (some ("@nav" ++ settings.linkBase ++ "/" ++
        navigationPath kind (p.relativePath n))) := by
  rw [get?_references_own hown, hp.resolve_of_mem_symbolsOf hs hv hn]

theorem Built.get?_symbols_iff_shows (hp : p.Built s settings) (hs : s.Sound) {key : String}
    {r : SymbolRef} :
    p.symbols.get? key = some r ↔
      r.navigation = navigationPath r.kind key ∧
        ∃ v ∈ s.pages, (p.pageOf v.module).value.Shows s.rootName v.module.path key r.kind := by
  rw [hp.get?_symbols_iff hs]
  constructor
  · rintro ⟨v, hv, ⟨n, kind⟩, hx, hkey, rfl⟩
    have hm := (Snapshot.module_of_mem_pages hs hv).1
    exact ⟨rfl, v, hv, (shows_pageOf_iff hp hs hm).mpr ⟨n, hx, hkey⟩⟩
  · rintro ⟨hnav, v, hv, hshows⟩
    have hm := (Snapshot.module_of_mem_pages hs hv).1
    obtain ⟨n, hx, hkey⟩ := (shows_pageOf_iff hp hs hm).mp hshows
    refine ⟨v, hv, (n, r.kind), hx, hkey, ?_⟩
    rw [SymbolRef.ofPath, ← hnav]

/-- The table holds a path and a kind if a page shows them, and only then. -/
theorem Built.holds_iff_shows (hp : p.Built s settings) (hs : s.Sound) {key : String}
    {kind : SymbolKind} :
    (∃ r, p.symbols.get? key = some r ∧ r.kind = kind) ↔
      ∃ v ∈ s.pages, (p.pageOf v.module).value.Shows s.rootName v.module.path key kind := by
  constructor
  · rintro ⟨r, hr, rfl⟩
    exact ((hp.get?_symbols_iff_shows hs).mp hr).2
  · intro hshows
    exact ⟨.ofPath kind key, (hp.get?_symbols_iff_shows hs).mpr ⟨rfl, hshows⟩, rfl⟩

/-- What a path is resolved to is the place of a symbol on some page. -/
theorem Built.exists_shows_of_navigationOf (hp : p.Built s settings) (hs : s.Sound)
    {path navigation : String} (h : p.navigationOf path = some navigation) :
    ∃ v ∈ s.pages, ∃ key kind,
      (p.pageOf v.module).value.Shows s.rootName v.module.path key kind ∧
        navigation = navigationPath kind key := by
  obtain ⟨hops, r, hchain, -, rfl⟩ := follow_eq_some_iff.mp h
  obtain ⟨key, hr⟩ := hchain.exists_key
  obtain ⟨hkey, v, hv, hshows⟩ := (hp.get?_symbols_iff_shows hs).mp hr
  exact ⟨v, hv, key, r.kind, hshows, hkey⟩

/-- The symbol table and the pages agree. The table holds a path and a kind iff a page shows them,
and its navigation path is that of the path and the kind. So every navigation path that a path is
resolved to is that of a symbol on some page, and every class and function on a page links its own
name to its own place. -/
theorem pages_agree_with_symbols {d : Declaration} {project : Noted Project}
    (hload : Snapshot.load d = .ok s) (hbuild : Project.build s settings = .ok project) :
    (∀ key kind, (∃ r, project.value.symbols.get? key = some r ∧ r.kind = kind) ↔
      ∃ v ∈ s.pages,
        (project.value.pageOf v.module).value.Shows s.rootName v.module.path key kind) ∧
    (∀ key r, project.value.symbols.get? key = some r → r.navigation = navigationPath r.kind key) ∧
    (∀ path navigation, project.value.navigationOf path = some navigation →
      ∃ v ∈ s.pages, ∃ key kind,
        (project.value.pageOf v.module).value.Shows s.rootName v.module.path key kind ∧
          navigation = navigationPath kind key) ∧
    ∀ v ∈ s.pages,
      let page := (project.value.pageOf v.module).value
      let link kind path := "@nav" ++ settings.linkBase ++ "/" ++ navigationPath kind path
      (∀ f ∈ page.callables,
        f.code.references.get? f.name = some (some (link .function f.path))) ∧
      ∀ c ∈ page.types,
        c.code.references.get? c.name = some (some (link .classType c.path)) ∧
        ∀ f ∈ c.callables, f.code.references.get? f.name = some (some (link .method f.path)) := by
  have hs := Snapshot.Sound.of_load hload
  have hp := (built_of_build hbuild).1
  refine ⟨fun key kind => hp.holds_iff_shows hs, ?_,
    fun path navigation => hp.exists_shows_of_navigationOf hs, ?_⟩
  · intro key r hr
    exact ((hp.get?_symbols_iff_shows hs).mp hr).1
  · intro v hv
    refine ⟨?_, ?_⟩
    · intro f hf
      obtain ⟨n, hn, rfl⟩ := List.mem_map.mp (project.value.callables_pageOf _ ▸ hf)
      have hfun := (List.mem_filter.mp hn).2
      exact hp.get?_references_name hs hv (by simp [SymbolTable.symbolsOf, hn])
        (Node.ownNames_of_isFunction hfun)
    · intro c hc
      obtain ⟨n, hn, rfl⟩ := List.mem_map.mp (project.value.types_pageOf _ ▸ hc)
      have hclass := (List.mem_filter.mp hn).2
      have hsymbols : ∀ x ∈ SymbolTable.symbolsOfClass n, x ∈ SymbolTable.symbolsOf v.module := by
        intro x hx
        simp only [SymbolTable.symbolsOf, List.mem_append, List.mem_flatMap]
        exact Or.inr ⟨n, hn, hx⟩
      refine ⟨?_, ?_⟩
      · exact hp.get?_references_name hs hv (hsymbols _ (by simp [SymbolTable.symbolsOfClass]))
          (Node.ownNames_of_isClass hclass)
      · intro f hf
        obtain ⟨k, hk, rfl⟩ := List.mem_map.mp (project.value.callables_classEntry n ▸ hf)
        have hfun := (Bool.and_eq_true_iff.mp (List.mem_filter.mp hk).2).1
        exact hp.get?_references_name hs hv
          (hsymbols _ (by simp [SymbolTable.symbolsOfClass, hk])) (Node.ownNames_of_isFunction hfun)

/-- A package with a file, a class in it and a method of that class. -/
def smallPackage : Declaration :=
  .mk { DeclFields.named .module "p" with
      filepath := some "p/__init__.py", docstring := some "Root." }
    [.mk { DeclFields.named .module "core" with filepath := some "p/core.py" }
      [.mk { DeclFields.named .classType "X" with docstring := some "A class." }
        [.mk { DeclFields.named .function "run" with docstring := some "Runs." } []]]]

/-- The method is a symbol, so a page shows it. -/
theorem smallPackage_pages_agree :
    ∃ s project, Snapshot.load smallPackage = .ok s ∧
      Project.build s Settings.standard = .ok project ∧
      project.value.symbols.get? "core.X.run" = some ⟨.method, "core.X.run"⟩ ∧
      ∃ v ∈ s.pages, (project.value.pageOf v.module).value.Shows "p" v.module.path
        "core.X.run" .method := by
  refine ⟨⟨Node.ofDeclaration smallPackage⟩, _, rfl, rfl, by decide +kernel, ?_⟩
  have hbuild : Project.build ⟨Node.ofDeclaration smallPackage⟩ Settings.standard = .ok _ := rfl
  have h := pages_agree_with_symbols (d := smallPackage) rfl hbuild
  exact (h.1 _ _).mp ⟨⟨.method, "core.X.run"⟩, by decide +kernel, rfl⟩

end Project

end ApiPages
