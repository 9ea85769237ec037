import ApiPages.Proofs.CheckedWalks
import ApiPages.Proofs.Crawl
import ApiPages.Proofs.PagePaths

/-!
# The table and the written pages

Two traversals make the symbol table and the pages. The table is gathered by a recursion over the
members of modules. The pages are written by a descent that goes by the packages listed on the pages
themselves, and looks their paths up. A symbol is in the table exactly if a page of the descent
shows it, and what the run has written are these pages.

* `Project.Crawls` — the modules that the descent comes to.

Results:

* `Project.Built.crawls_iff`: the descent comes to the modules of the walk.
* `generate_writes_table`: the table of a run and the pages that it writes.
-/

namespace ApiPages

namespace Project

/-- The modules that a descent comes to: the root, and what is found at the path of a package that
is listed on the page of such a module. -/
inductive Crawls (p : Project) : Node → Prop
  | root : p.Crawls p.snapshot.root
  | child {m n : Node} {c : ChildEntry} (hm : p.Crawls m) (hc : c ∈ (p.pageOf m).value.children)
      (hn : p.snapshot.find? c.path = some n) : p.Crawls n

variable {p : Project} {s : Snapshot} {settings : Settings}

/-- The descent comes to the modules of the walk. -/
theorem Built.crawls_iff (hp : p.Built s settings) (hs : s.Sound) {n : Node} :
    p.Crawls n ↔ ∃ v ∈ s.pages, v.module = n := by
  constructor
  · intro h
    induction h with
    | root => exact ⟨_, s.root_mem_pages, by rw [hp.snapshot]⟩
    | @child m n c _ hc hn ih =>
      obtain ⟨v, hv, rfl⟩ := ih
      rw [children_pageOf] at hc
      obtain ⟨k, hk, rfl⟩ := List.mem_map.mp hc
      obtain ⟨hmem, hkeep⟩ := List.mem_filter.mp hk
      have hnode := Snapshot.child_mem_nodes (Snapshot.module_of_mem_pages hs hv).1 hmem
      have hfind : p.snapshot.find? k.path = some k := by
        rw [hp.snapshot]
        exact hs.find?_path hnode
      cases hfind.symm.trans hn
      exact ⟨_, Node.member_mem_walkFrom hv hmem hkeep, rfl⟩
  · rintro ⟨v, hv, rfl⟩
    obtain ⟨k, hbelow, -⟩ := Node.mem_walkFrom_iff.mp hv
    clear hv
    generalize v.module = n at hbelow
    induction hbelow with
    | self =>
      rw [← hp.snapshot]
      exact .root
    | @step k m c hbelow hmem hkeep ih =>
      have hnode : c ∈ s.nodes := Snapshot.child_mem_nodes hbelow.mem_preorder hmem
      refine .child ih (c := childEntry c) ?_ ?_
      · exact List.mem_map_of_mem (List.mem_filter.mpr ⟨hmem, hkeep⟩)
      · rw [hp.snapshot]
        exact hs.find?_path hnode

end Project

/-- The table of a run and its pages are made by two traversals that agree. The table is gathered by
recursion over the snapshot. The run is the descent from page to page; what it has written are the
pages of the modules that the descent comes to, and a symbol is in the table exactly if one of them
shows it. So whatever a path is resolved to has its place on a page that is written. -/
theorem generate_writes_table {σ : Type} (fs : FileSystem (StateM σ)) {st st' : σ}
    {d : Declaration} {s : Snapshot} {settings : Settings} {report : Report}
    (hload : Snapshot.load d = .ok s)
    (hrun : (generate fs s settings).run.run st = (.ok report, st')) :
    ∃ project, Project.build s settings = .ok project ∧
      SymbolTable.gather s settings.maxDepth = .ok project.value.symbols ∧
      generate fs s settings = crawl fs project.value settings.out 0 s.root
        ⟨[], Diagnostics.ofFindings project.findings⟩ ∧
      (∀ target, target ∈ report.written ↔
        ∃ n, project.value.Crawls n ∧ pagePath settings.out n.path = target) ∧
      (∀ key kind, (∃ r, project.value.symbols.get? key = some r ∧ r.kind = kind) ↔
        ∃ n, project.value.Crawls n ∧
          (project.value.pageOf n).value.Shows s.rootName n.path key kind) ∧
      ∀ path navigation, project.value.navigationOf path = some navigation →
        ∃ n, project.value.Crawls n ∧ ∃ key kind,
          (project.value.pageOf n).value.Shows s.rootName n.path key kind ∧
            navigation = navigationPath kind key := by
  have hs := Snapshot.Sound.of_load hload
  obtain ⟨project, hbuild, -⟩ := diagnostics_of_generate fs hrun
  have hp := (Project.built_of_build hbuild).1
  have hcrawls {P : Node → Prop} :
      (∃ n, project.value.Crawls n ∧ P n) ↔ ∃ v ∈ s.pages, P v.module := by
    simp only [hp.crawls_iff hs]
    grind
  refine ⟨project, hbuild, (Project.gather_of_build hbuild).1, generate_eq_crawl hs fs hbuild,
    ?_, ?_, ?_⟩
  · intro target
    rw [written_of_generate fs hrun, List.mem_map, hcrawls]
  · intro key kind
    rw [hp.holds_iff_shows hs, hcrawls]
  · intro path navigation hnav
    rw [hcrawls]
    exact hp.exists_shows_of_navigationOf hs hnav

end ApiPages
