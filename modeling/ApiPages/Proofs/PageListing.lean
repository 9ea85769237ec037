import ApiPages.Proofs.PageFindings
import ApiPages.Proofs.SymbolKeys
import Mathlib.Data.String.Basic

/-!
# What a page lists

A page lists the elements of its module: its files, its documented packages, and what is documented
in the files, with what the classes there declare themselves. Everything has one place, which is
that of its declaration; only the attributes are sorted by name, and those of one name keep the
order of the files.

Results:

* `Text.bytes_le_of_le`: the order of texts is that of their bytes.
* `filter_mergeSort`: sorting by name keeps the order under each name.
* `Project.elementPaths_pageOf_nodup`: no element of a page is listed twice.
* `Project.page_lists_documented`: the lists of the page of a module.
-/

namespace ApiPages

/-! ## The order of names -/

namespace Text

/-- The bytes of a text. -/
def bytes (s : String) : List UInt8 := s.toUTF8.data.toList

theorem bytes_eq (s : String) : bytes s = s.toList.flatMap String.utf8EncodeChar := by
  rw [bytes, String.toUTF8_eq_toByteArray, ← String.utf8Encode_toList, List.utf8Encode]
  simp

/-- Characters are ordered as their bytes are, which tell them apart before the shorter ones end. -/
theorem utf8EncodeChar_append_lt {c d : Char} (h : c < d) (xs ys : List UInt8) :
    String.utf8EncodeChar c ++ xs < String.utf8EncodeChar d ++ ys := by
  have hlt : c.val.toNat < d.val.toNat := h
  have hd : d.val.toNat < 0x110000 := by
    have hvalid : d.val.toNat.isValidChar := d.valid
    unfold Nat.isValidChar at hvalid
    omega
  -- the bytes that start two, three and four bytes, and those that continue them
  have htwo : ∀ x, (x % 32 + 192) % 256 = x % 32 + 192 := by omega
  have hthree : ∀ x, (x % 16 + 224) % 256 = x % 16 + 224 := by omega
  have hfour : ∀ x, x < 0x110000 → (x / 262144 % 8 + 240) % 256 = x / 64 / 64 / 64 + 240 := by
    omega
  have hnext : ∀ x, (x % 64 + 128) % 256 = x % 64 + 128 := by omega
  have hdiv : ∀ x, x / 4096 = x / 64 / 64 := by omega
  unfold String.utf8EncodeChar
  generalize c.val.toNat = v at *
  generalize d.val.toNat = w at *
  have hv : v < 0x110000 := hlt.trans hd
  dsimp only
  split_ifs <;>
    simp only [List.cons_append, List.nil_append, List.cons_lt_cons_iff, UInt8.lt_iff_toNat_lt,
      ← UInt8.toNat_inj, UInt8.toNat_ofNat', Nat.reducePow, htwo, hthree, hfour v hv, hfour w hd,
      hnext, hdiv] <;>
    omega

theorem flatMap_utf8EncodeChar_lt {cs ds : List Char} (h : cs < ds) :
    cs.flatMap String.utf8EncodeChar < ds.flatMap String.utf8EncodeChar := by
  induction h with
  | @nil d ds =>
    rw [List.flatMap_nil, List.flatMap_cons]
    obtain ⟨b, bs, hb⟩ := List.exists_cons_of_ne_nil (String.utf8EncodeChar_ne_nil (c := d))
    rw [hb]
    exact List.nil_lt_cons _ _
  | rel h =>
    rw [List.flatMap_cons, List.flatMap_cons]
    exact utf8EncodeChar_append_lt h _ _
  | cons _ ih =>
    rw [List.flatMap_cons, List.flatMap_cons]
    exact List.append_left_lt ih

/-- The order of texts is that of their bytes. -/
theorem bytes_le_of_le {s t : String} (h : s ≤ t) : bytes s ≤ bytes t := by
  rcases h.lt_or_eq with hlt | rfl
  · rw [bytes_eq, bytes_eq]
    exact List.le_of_lt (flatMap_utf8EncodeChar_lt (String.lt_iff_toList_lt.mp hlt))
  · exact List.le_refl _

end Text

section Sorting

variable {α : Type} (key : α → String) (xs : List α)

theorem decide_le_trans (a b c : α) (hab : decide (key a ≤ key b) = true)
    (hbc : decide (key b ≤ key c) = true) : decide (key a ≤ key c) = true := by
  rw [decide_eq_true_eq] at hab hbc ⊢
  exact hab.trans hbc

theorem decide_le_total (a b : α) :
    (decide (key a ≤ key b) || decide (key b ≤ key a)) = true := by
  simpa using le_total (key a) (key b)

theorem pairwise_mergeSort :
    (xs.mergeSort fun a b => decide (key a ≤ key b)).Pairwise fun a b => key a ≤ key b := by
  have h : (xs.mergeSort fun a b => decide (key a ≤ key b)).Pairwise
      fun a b => decide (key a ≤ key b) = true :=
    List.pairwise_mergeSort (decide_le_trans key) (decide_le_total key) xs
  simpa only [decide_eq_true_eq] using h

/-- Sorting by name keeps the order under each name. -/
theorem filter_mergeSort (k : String) :
    ((xs.mergeSort fun a b => decide (key a ≤ key b)).filter fun a => key a == k) =
      xs.filter fun a => key a == k := by
  have hsorted : (xs.filter fun a => key a == k).Pairwise
      fun a b => decide (key a ≤ key b) = true := by
    rw [List.pairwise_filter]
    refine List.pairwise_of_forall fun a b ha hb => ?_
    rw [beq_iff_eq.mp ha, beq_iff_eq.mp hb, decide_eq_true_eq]
  have hsub : (xs.filter fun a => key a == k).Sublist
      (xs.mergeSort fun a b => decide (key a ≤ key b)) :=
    List.sublist_mergeSort (decide_le_trans key) (decide_le_total key) hsorted List.filter_sublist
  have hfiltered := hsub.filter fun a => key a == k
  rw [List.filter_filter] at hfiltered
  simp only [Bool.and_self] at hfiltered
  have hlength := ((List.mergeSort_perm xs fun a b => decide (key a ≤ key b)).filter
    fun a => key a == k).length_eq
  exact (hfiltered.eq_of_length hlength.symm).symm

end Sorting

/-! ## The elements of a module -/

/-- The nodes that the page of a module shows besides modules. -/
def Node.elements (module : Node) : List Node :=
  let c := Contents.ofModule module
  c.functions ++ c.attributes
    ++ c.classes.flatMap fun k => k :: Contents.methods k ++ Contents.classAttributes k

theorem Node.onPage_eq (m : Node) : m.onPage = m :: (Contents.ofModule m).files ++ m.elements := by
  simp [onPage, elements, SymbolTable.symbolsOf, SymbolTable.symbolsOfClass, List.map_flatMap,
    Function.comp_def]

theorem Node.exists_kind_of_mem_elements {m n : Node} (h : n ∈ m.elements) :
    ∃ k, k ≠ .module ∧ (n, k) ∈ SymbolTable.symbolsOf m := by
  simp only [elements, List.cons_append, List.mem_append, List.mem_flatMap, List.mem_cons] at h
  rcases h with (hn | hn) | ⟨c, hc, rfl | hn | hn⟩
  · exact ⟨.function, by decide, by simp [SymbolTable.symbolsOf, hn]⟩
  · exact ⟨.attr, by decide, by simp [SymbolTable.symbolsOf, hn]⟩
  · exact ⟨.classType, by decide, by simp [SymbolTable.symbolsOf, SymbolTable.symbolsOfClass, hc]⟩
  · refine ⟨.method, by decide, List.mem_append_right _ (List.mem_flatMap.mpr ⟨c, hc, ?_⟩)⟩
    simp [SymbolTable.symbolsOfClass, hn]
  · refine ⟨.property, by decide, List.mem_append_right _ (List.mem_flatMap.mpr ⟨c, hc, ?_⟩)⟩
    simp [SymbolTable.symbolsOfClass, hn]

/-- The paths of a class and of its members. -/
def ClassEntry.elementPaths (c : ClassEntry) : List String :=
  c.path :: c.callables.map CallableEntry.path ++ c.attributes.map AttributeEntry.path

/-- The paths of what a page shows besides modules. -/
def Page.elementPaths (page : Page) : List String :=
  page.callables.map CallableEntry.path ++ page.attributes.map AttributeEntry.path
    ++ page.types.flatMap ClassEntry.elementPaths

namespace Snapshot

variable {s : Snapshot}

/-- No node is shown twice on a page. -/
theorem onPage_nodup (hs : s.Sound) {m : Node} (hm : m ∈ s.nodes) (hmodule : m.isModule = true) :
    m.onPage.Nodup := by
  refine (symbolsOf_nodup hs hm).map_on fun x hx y hy h => Prod.ext h ?_
  have hxdoc := documents_of_mem_symbolsOf_module hs hm hmodule hx
  have hydoc := documents_of_mem_symbolsOf_module hs hm hmodule hy
  exact hxdoc.kind_eq hs (h ▸ hydoc)

/-- The root is no element of a module, so relative paths tell the elements apart. -/
theorem eq_of_relativeTo_elements (hs : s.Sound) {m : Node} (hm : m ∈ s.nodes)
    (hmodule : m.isModule = true) {n k : Node} (hn : n ∈ m.elements) (hk : k ∈ m.elements)
    (h : DottedPath.relativeTo s.rootName n.path = DottedPath.relativeTo s.rootName k.path) :
    n = k := by
  have hdoc : ∀ {x : Node}, x ∈ m.elements → x ∈ s.nodes ∧ x ≠ s.root := by
    intro x hx
    obtain ⟨kind, hkind, hmem⟩ := Node.exists_kind_of_mem_elements hx
    have hdoc := documents_of_mem_symbolsOf_module hs hm hmodule hmem
    refine ⟨hdoc.mem_nodes, fun hroot => hkind ?_⟩
    exact hdoc.kind_eq hs (hroot ▸ .root)
  rcases hs.path_of_relative_eq (hdoc hn).1 (hdoc hk).1 h with heq | ⟨hroot, -⟩ | ⟨hroot, -⟩
  · exact heq
  · exact absurd hroot (hdoc hn).2
  · exact absurd hroot (hdoc hk).2

end Snapshot

namespace Project

variable {p : Project} {s : Snapshot} {settings : Settings} {m : Node}

theorem attributes_pageOf :
    (p.pageOf m).value.attributes =
      ((Contents.ofModule m).attributes.map fun n => (p.attributeEntry "global" n).value).mergeSort
        fun a b => decide (a.name ≤ b.name) := by
  simp [pageOf]

/-- A package is marked as a leaf iff its own page lists no packages. -/
theorem isLeaf_eq (c : Node) :
    Contents.isLeaf c = decide ((p.pageOf c).value.children = []) := by
  rw [Bool.eq_iff_iff, children_pageOf]
  simp [Contents.isLeaf, Contents.ofModule, List.filter_eq_nil_iff]

theorem elementPaths_pageOf_perm :
    (p.pageOf m).value.elementPaths.Perm (m.elements.map p.relativePath) := by
  have hattr : ((p.pageOf m).value.attributes.map AttributeEntry.path).Perm
      ((Contents.ofModule m).attributes.map p.relativePath) := by
    have hperm := List.mergeSort_perm
      ((Contents.ofModule m).attributes.map fun n => (p.attributeEntry "global" n).value)
      fun a b => decide (a.name ≤ b.name)
    rw [← attributes_pageOf] at hperm
    have hpaths := hperm.map AttributeEntry.path
    rwa [List.map_map] at hpaths
  simp only [Page.elementPaths, ClassEntry.elementPaths, Node.elements, callables_pageOf,
    types_pageOf, callables_classEntry, attributes_classEntry, List.map_append, List.map_flatMap,
    List.flatMap_map, List.map_cons, List.map_map]
  exact (hattr.append_left _).append_right _

/-- No element of a page is listed twice. -/
theorem elementPaths_pageOf_nodup (hp : p.Built s settings) (hs : s.Sound) (hm : m ∈ s.nodes)
    (hmodule : m.isModule = true) : (p.pageOf m).value.elementPaths.Nodup := by
  rw [elementPaths_pageOf_perm.nodup_iff]
  have hnodup : m.elements.Nodup := by
    have h := Snapshot.onPage_nodup hs hm hmodule
    rw [Node.onPage_eq] at h
    exact h.of_append_right
  refine hnodup.map_on fun n hn k hk h => ?_
  rw [hp.relativePath_eq, hp.relativePath_eq] at h
  exact Snapshot.eq_of_relativeTo_elements hs hm hmodule hn hk h

/-- The page of a module lists its elements, each once. Its files are the modules among its members
that are no packages, and its children the documented packages, which are leaves iff their own pages
have no children. Its types and callables are the documented classes and functions that the files
declare, in the order of the files and then of the declarations. Its attributes are the documented
attributes of the files, sorted by name, in the same order under each name. The members of a class
are the documented functions and attributes that it declares and does not inherit. -/
theorem page_lists_documented {d : Declaration} {project : Noted Project}
    (hload : Snapshot.load d = .ok s) (hbuild : Project.build s settings = .ok project)
    (hm : m ∈ s.nodes) (hmodule : m.isModule = true) :
    let p := project.value
    let page := (p.pageOf m).value
    let files := m.children.filter fun f => f.isModule && !f.isPackage
    let documented := files.flatMap fun f => f.children.filter Node.isDocumented
    let attributes :=
      (documented.filter Node.isAttribute).map fun a => (p.attributeEntry "global" a).value
    page.files = files.map (fun f => (p.fileEntry f).value) ∧
    page.children = (m.children.filter fun c => c.isPackage && c.isDocumented).map
      (fun c => ⟨c.name, c.path, decide ((p.pageOf c).value.children = [])⟩) ∧
    page.types = (documented.filter Node.isClass).map (fun c => (p.classEntry c).value) ∧
    page.callables = (documented.filter Node.isFunction).map
      (fun f => (p.callableEntry "function" f).value) ∧
    (page.attributes.Perm attributes ∧
      page.attributes.Pairwise (fun a b => Text.bytes a.name ≤ Text.bytes b.name) ∧
      ∀ name, page.attributes.filter (fun a => a.name == name) =
        attributes.filter fun a => a.name == name) ∧
    (∀ c : Node,
      (p.classEntry c).value.attributes =
        (c.children.filter fun a => a.isAttribute && (a.isDocumented && !a.isInherited)).map
          (fun a => (p.attributeEntry "attribute" a).value) ∧
      (p.classEntry c).value.callables =
        (c.children.filter fun f => f.isFunction && (f.isDocumented && !f.isInherited)).map
          (fun f => (p.callableEntry "method" f).value)) ∧
    (page.files.map FileEntry.name).Nodup ∧ (page.children.map ChildEntry.path).Nodup ∧
      page.elementPaths.Nodup := by
  intro p page files documented attributes
  have hs := Snapshot.Sound.of_load hload
  have hp := (built_of_build hbuild).1
  have hfiles : page.files = files.map fun f => (p.fileEntry f).value := p.files_pageOf m
  have hchildren : page.children = (m.children.filter fun c => c.isPackage && c.isDocumented).map
      fun c => ⟨c.name, c.path, decide ((p.pageOf c).value.children = [])⟩ := by
    simp only [← isLeaf_eq]
    exact p.children_pageOf m
  have hattributes : page.attributes = attributes.mergeSort fun a b => decide (a.name ≤ b.name) :=
    attributes_pageOf
  have hnodup := hs.children_nodup hm
  have hmem : ∀ {c : Node}, c ∈ m.children → c ∈ s.nodes := fun hc => Snapshot.child_mem_nodes hm hc
  refine ⟨hfiles, hchildren, p.types_pageOf m, p.callables_pageOf m, ⟨?_, ?_, fun name => ?_⟩,
    fun c => ⟨p.attributes_classEntry c, p.callables_classEntry c⟩, ?_, ?_,
    elementPaths_pageOf_nodup hp hs hm hmodule⟩
  · rw [hattributes]
    exact List.mergeSort_perm _ _
  · rw [hattributes]
    exact (pairwise_mergeSort AttributeEntry.name attributes).imp Text.bytes_le_of_le
  · rw [hattributes]
    exact filter_mergeSort AttributeEntry.name attributes name
  · rw [hfiles, List.map_map]
    refine (hnodup.filter _).map_on fun f hf g hg hname => ?_
    have hfm := (List.mem_filter.mp hf).1
    have hgm := (List.mem_filter.mp hg).1
    refine hs.eq_of_path (hmem hfm) (hmem hgm) ?_
    have hname : f.name = g.name := hname
    rw [hs.child_path m hm f hfm, hs.child_path m hm g hgm, hname]
  · rw [hchildren, List.map_map]
    refine (hnodup.filter _).map_on fun c hc k hk hpath => ?_
    exact hs.eq_of_path (hmem (List.mem_filter.mp hc).1) (hmem (List.mem_filter.mp hk).1) hpath

/-- A package with two files that both declare `A`. -/
def packageWithSharedName : Declaration :=
  .mk { DeclFields.named .module "p" with
      filepath := some "p/__init__.py", docstring := some "Root." }
    [.mk { DeclFields.named .module "late" with filepath := some "p/late.py" }
      [.mk { DeclFields.named .attr "B" with docstring := some "Late." } [],
        .mk { DeclFields.named .attr "A" with docstring := some "Late." } []],
      .mk { DeclFields.named .module "early" with filepath := some "p/early.py" }
        [.mk { DeclFields.named .attr "A" with docstring := some "Early." } []]]

/-- The page of the package has the attributes of both files, and of the two of one name the one of
the first file comes first. -/
theorem packageWithSharedName_listed :
    ∃ s project, Snapshot.load packageWithSharedName = .ok s ∧
      Project.build s Settings.standard = .ok project ∧ s.root ∈ s.nodes ∧
      s.root.isModule = true ∧
      let page := (project.value.pageOf s.root).value
      page.attributes.length = 3 ∧
      (page.attributes.filter fun a => a.name == "A").map AttributeEntry.path =
        ["late.A", "early.A"] ∧
      page.elementPaths.Nodup := by
  have hbuild : Project.build ⟨Node.ofDeclaration packageWithSharedName⟩ Settings.standard =
    .ok _ := rfl
  obtain ⟨-, -, -, -, ⟨hperm, -, hstable⟩, -, -, -, hnodup⟩ := page_lists_documented
    (d := packageWithSharedName) rfl hbuild (Snapshot.root_mem_nodes _) (by decide)
  refine ⟨_, _, rfl, hbuild, Snapshot.root_mem_nodes _, by decide, ?_, ?_, hnodup⟩
  · rw [hperm.length_eq]
    decide +kernel
  · rw [hstable "A"]
    decide +kernel

end Project

end ApiPages
