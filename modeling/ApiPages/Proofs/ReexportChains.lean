import ApiPages.Proofs.Tables
import Mathlib.Data.List.Perm.Subperm

/-!
# Chains of re-exports

Following a path goes from re-export to re-export until a symbol is found. The paths on the way are
told apart, since the way from each of them on is determined, so there are no more of them than the
map of re-exports has entries. With that many hops a re-export leads where its target leads, unless
the symbol table has a symbol under the relative path of the re-export itself: that happens to a
re-export whose relative path is the name of the root.

Results:

* `Project.follow_eq_some_iff`: what is found after some hops lies at the end of a chain.
* `Project.Chain.length_le`: a chain has no more hops than there are re-exports.
* `Project.navigationOf_of_reexport`: with enough hops a re-export leads where its target leads.
* `Project.navigationOf_reexport`: which re-exports of a snapshot lead where their targets lead.
-/

namespace ApiPages

namespace Project

variable {p : Project} {path q : String} {r r' : SymbolRef} {hops hops' : List String}

/-- The path leads through the re-exports `hops` to a symbol. A symbol at a path hides a re-export
there. -/
inductive Chain (p : Project) : String → List String → SymbolRef → Prop
  | here {path : String} {r : SymbolRef} (hr : p.symbolAt path = some r) : p.Chain path [] r
  | hop {path q : String} {hops : List String} {r : SymbolRef} (hnone : p.symbolAt path = none)
      (hq : p.reexports.get? path = some q) (hchain : p.Chain q hops r) :
      p.Chain path (path :: hops) r

namespace Chain

/-- A path determines its chain. -/
theorem unique (h : p.Chain path hops r) (h' : p.Chain path hops' r') : hops = hops' ∧ r = r' := by
  induction h generalizing hops' r' with
  | here hr =>
    cases h' with
    | here hr' => exact ⟨rfl, Option.some.inj (hr.symm.trans hr')⟩
    | hop hnone _ _ => cases hr.symm.trans hnone
  | hop hnone hq _ ih =>
    cases h' with
    | here hr' => cases hnone.symm.trans hr'
    | hop _ hq' hchain' =>
      cases hq.symm.trans hq'
      obtain ⟨rfl, rfl⟩ := ih hchain'
      exact ⟨rfl, rfl⟩

/-- From every re-export on a chain the rest of the chain leads on. -/
theorem of_mem (h : p.Chain path hops r) (hq : q ∈ hops) :
    ∃ rest, rest.length ≤ hops.length ∧ p.Chain q rest r := by
  induction h with
  | here _ => cases hq
  | @hop path _ hops _ hnone hnext hchain ih =>
    rcases List.mem_cons.mp hq with rfl | hq
    · exact ⟨q :: hops, Nat.le_refl _, .hop hnone hnext hchain⟩
    · obtain ⟨rest, hlen, hrest⟩ := ih hq
      exact ⟨rest, by rw [List.length_cons]; omega, hrest⟩

/-- No re-export occurs twice on a chain. -/
theorem nodup (h : p.Chain path hops r) : hops.Nodup := by
  induction h with
  | here _ => exact List.nodup_nil
  | @hop path _ hops _ hnone hq hchain ih =>
    refine List.nodup_cons.mpr ⟨?_, ih⟩
    intro hmem
    -- the chain from the second occurrence on would be both shorter and the same
    obtain ⟨rest, hlen, hrest⟩ := hchain.of_mem hmem
    obtain ⟨rfl, -⟩ := hrest.unique (.hop hnone hq hchain)
    rw [List.length_cons] at hlen
    omega

theorem subset_keys (h : p.Chain path hops r) : hops ⊆ p.reexports.keys := by
  induction h with
  | here _ => exact List.nil_subset _
  | hop _ hq _ ih =>
    refine List.cons_subset.mpr ⟨?_, ih⟩
    rw [Dict.mem_keys_iff, hq]
    rfl

/-- A chain has no more hops than there are re-exports. -/
theorem length_le (h : p.Chain path hops r) : hops.length ≤ p.reexports.size := by
  rw [← Dict.length_keys]
  exact (List.subperm_of_subset h.nodup h.subset_keys).length_le

theorem exists_key (h : p.Chain path hops r) : ∃ key, p.symbols.get? key = some r := by
  induction h with
  | here hr => exact ⟨_, hr⟩
  | hop _ _ _ ih => exact ih

end Chain

theorem follow_of_symbolAt (h : p.symbolAt path = some r) (n : Nat) :
    p.follow path n = some r.navigation := by
  cases n with
  | zero => simp [follow, h]
  | succ n => simp [follow, h]

/-- What is found after at most `n` hops is the end of a chain of that length. -/
theorem follow_eq_some_iff {n : Nat} {navigation : String} :
    p.follow path n = some navigation ↔
      ∃ hops r, p.Chain path hops r ∧ hops.length ≤ n ∧ r.navigation = navigation := by
  induction n generalizing path with
  | zero =>
    rw [follow, Option.map_eq_some_iff]
    constructor
    · rintro ⟨r, hr, rfl⟩
      exact ⟨[], r, .here hr, Nat.le_refl _, rfl⟩
    · rintro ⟨hops, r, hchain, hlen, rfl⟩
      cases hchain with
      | here hr => exact ⟨r, hr, rfl⟩
      | hop _ _ _ => cases hlen
  | succ n ih =>
    constructor
    · intro h
      rw [follow] at h
      split at h
      · next r hr =>
        cases h
        exact ⟨[], r, .here hr, Nat.zero_le _, rfl⟩
      · next hnone =>
        split at h
        · next q hq =>
          obtain ⟨hops, r, hchain, hlen, hnav⟩ := ih.mp h
          exact ⟨path :: hops, r, .hop hnone hq hchain, Nat.succ_le_succ hlen, hnav⟩
        · cases h
    · rintro ⟨hops, r, hchain, hlen, rfl⟩
      cases hchain with
      | here hr => exact follow_of_symbolAt hr _
      | hop hnone hq hchain =>
        rw [follow, hnone, hq]
        exact ih.mpr ⟨_, r, hchain, Nat.le_of_succ_le_succ hlen, rfl⟩

/-- With as many hops as there are re-exports the length of chains does not matter. -/
theorem navigationOf_eq_some_iff (hdepth : p.reexports.size ≤ p.maxDepth) {navigation : String} :
    p.navigationOf path = some navigation ↔
      ∃ hops r, p.Chain path hops r ∧ r.navigation = navigation := by
  rw [navigationOf, follow_eq_some_iff]
  constructor
  · rintro ⟨hops, r, hchain, -, hnav⟩
    exact ⟨hops, r, hchain, hnav⟩
  · rintro ⟨hops, r, hchain, hnav⟩
    exact ⟨hops, r, hchain, Nat.le_trans hchain.length_le hdepth, hnav⟩

/-- With enough hops a re-export that no symbol hides leads where its target leads. -/
theorem navigationOf_of_reexport (hdepth : p.reexports.size ≤ p.maxDepth)
    (hnone : p.symbolAt path = none) (hq : p.reexports.get? path = some q) :
    p.navigationOf path = p.navigationOf q := by
  apply Option.ext
  intro navigation
  rw [navigationOf_eq_some_iff hdepth, navigationOf_eq_some_iff hdepth]
  constructor
  · rintro ⟨hops, r, hchain, hnav⟩
    cases hchain with
    | here hr => cases hnone.symm.trans hr
    | hop _ hq' hchain =>
      cases hq.symm.trans hq'
      exact ⟨_, r, hchain, hnav⟩
  · rintro ⟨hops, r, hchain, hnav⟩
    exact ⟨path :: hops, r, .hop hnone hq hchain, hnav⟩

/-! ## Re-exports of a snapshot -/

variable {s : Snapshot} {settings : Settings}

/-- The symbol of the root is found under its name, as a canonical path or below the root. -/
theorem Built.symbols_rootName (hp : p.Built s settings) (hs : s.Sound) :
    p.symbols.get? s.rootName = some ⟨.module, s.rootName⟩ := by
  refine (hp.get?_symbols_iff hs).mpr ⟨_, s.root_mem_pages, (s.root, .module), ?_, ?_, ?_⟩
  · simp [SymbolTable.symbolsOf]
  · rw [hs.root_path, DottedPath.relativeTo_self]
  · rw [SymbolRef.ofPath, navigationPath_module_of_dot_not_mem hs.dot_not_mem_rootName]

/-- No symbol hides a re-export, unless it has the name of the root as its relative path. -/
theorem Built.symbolAt_reexport (hp : p.Built s settings) (hs : s.Sound) {a : Node}
    (ha : a ∈ s.nodes) (hre : a.isReexport = true)
    (hpath : a.path ≠ DottedPath.child s.rootName s.rootName) : p.symbolAt a.path = none := by
  rw [Option.eq_none_iff_forall_ne_some]
  intro r hr
  rw [symbolAt, hp.rootName_eq, hp.get?_symbols_iff hs] at hr
  obtain ⟨v, hv, x, hx, hkey, -⟩ := hr
  have hdoc := Snapshot.documents_of_mem_symbolsOf hs hv hx
  rcases hs.path_of_relative_eq ha (hdoc.mem_nodes) hkey with rfl | ⟨rfl, -⟩ | ⟨-, h⟩
  · rw [hdoc.isReexport_eq_false hs] at hre
    cases hre
  · rw [Snapshot.Documents.root.isReexport_eq_false hs] at hre
    cases hre
  · exact hpath h

/-- With as many hops as there are re-exports, a re-export in the map leads where its target leads,
except for one: a re-export that has the name of the root as its relative path leads to the page of
the root, whatever its target is. -/
theorem navigationOf_reexport {d : Declaration} {project : Noted Project}
    (hload : Snapshot.load d = .ok s) (hbuild : Project.build s settings = .ok project)
    (hdepth : project.value.reexports.size ≤ settings.maxDepth) {a : Node} (ha : a ∈ s.nodes)
    {target : Option String} (hkind : a.info.kind = .reexport target false)
    (hq : project.value.reexports.get? a.path = some q) :
    project.value.navigationOf a.path =
      if a.path = DottedPath.child s.rootName s.rootName then some s.rootName
      else project.value.navigationOf q := by
  have hs := Snapshot.Sound.of_load hload
  have hp := (built_of_build hbuild).1
  split
  · next hpath =>
    refine follow_of_symbolAt (r := ⟨.module, s.rootName⟩) ?_ _
    rw [symbolAt, hp.rootName_eq, hpath, DottedPath.relativeTo_child]
    exact hp.symbols_rootName hs
  · next hpath =>
    have hre : a.isReexport = true := by rw [Node.isReexport, hkind]
    rw [← hp.maxDepth] at hdepth
    exact navigationOf_of_reexport hdepth (hp.symbolAt_reexport hs ha hre hpath) hq

/-- A package that re-exports a class of its file under the given name, through a second re-export
in the file. -/
def chainedPackage (name : String) : Declaration :=
  .mk { DeclFields.named .module "p" with
      filepath := some "p/__init__.py", docstring := some "Root." }
    [.mk { DeclFields.named .reexport name with target := some "p.core.Y" } [],
      .mk { DeclFields.named .module "core" with filepath := some "p/core.py" }
        [.mk { DeclFields.named .reexport "Y" with target := some "p.core.X" } [],
          .mk { DeclFields.named .classType "X" with docstring := some "A class." } []]]

/-- The re-export leads through the second one to the class. -/
theorem chainedPackage_navigation :
    ∃ s project, Snapshot.load (chainedPackage "Z") = .ok s ∧
      Project.build s Settings.standard = .ok project ∧
      project.value.navigationOf "p.Z" = project.value.navigationOf "p.core.Y" ∧
      project.value.navigationOf "p.core.Y" = some "core.X" := by
  refine ⟨⟨Node.ofDeclaration (chainedPackage "Z")⟩, _, rfl, rfl, ?_, by decide +kernel⟩
  have hbuild : Project.build ⟨Node.ofDeclaration (chainedPackage "Z")⟩ Settings.standard = .ok _ :=
    rfl
  have h := navigationOf_reexport (d := chainedPackage "Z") rfl hbuild (by decide +kernel)
    (a := (Node.ofDeclaration (chainedPackage "Z")).children.head (by decide))
    (Node.mem_preorder_of_mem_children (Node.self_mem_preorder _) (List.head_mem _)) rfl
    (q := "p.core.Y") (by decide +kernel)
  rw [if_neg (by decide +kernel)] at h
  exact h

/-- A re-export that has the name of the root hides behind the root: it does not lead where its
target leads. -/
theorem chainedPackage_rootName_navigation :
    ∃ s project a, Snapshot.load (chainedPackage "p") = .ok s ∧
      Project.build s Settings.standard = .ok project ∧
      project.value.reexports.size ≤ Settings.standard.maxDepth ∧ a ∈ s.root.children ∧
      a.info.kind = .reexport (some "p.core.Y") false ∧
      project.value.reexports.get? a.path = some "p.core.Y" ∧
      project.value.navigationOf a.path = some "p" ∧
      project.value.navigationOf "p.core.Y" = some "core.X" := by
  refine ⟨⟨Node.ofDeclaration (chainedPackage "p")⟩, _,
    (Node.ofDeclaration (chainedPackage "p")).children.head (by decide), rfl, rfl,
    by decide +kernel, List.head_mem _, rfl, ?_, ?_, ?_⟩ <;> decide +kernel

end Project

end ApiPages
