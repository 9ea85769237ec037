import ApiPages.Proofs.PageListing
import ApiPages.Proofs.RunDiagnostics

/-!
# Missing docstrings

A missing docstring is a finding where the documentation of a node is made, unless the node is a
plain file. But a node comes so far only if it is on a page, and besides the root and the files what
has no docstring is on none. So of all nodes that should have a docstring, the root alone is ever
reported.

* `Snapshot.Expects`: the node should have a docstring.
* `Project.missingDocstring_mem_findings_pageOf_iff`: the missing docstrings that a page finds.
* `generate_reports_missing_docstrings`: the missing docstrings that a run reports.
-/

namespace ApiPages

/-! ## Where docstrings belong -/

/-- The node should have a docstring: the root, if it is a package, the packages in the module of a
page, what the files of the page declare, and what the classes on it declare themselves. -/
inductive Snapshot.Expects (s : Snapshot) : Node → Prop
  | root (hpackage : s.root.isPackage = true) : s.Expects s.root
  | package {v : Visit} {n : Node} (hv : v ∈ s.pages) (hn : n ∈ v.module.children)
      (hpackage : n.isPackage = true) : s.Expects n
  | declaration {v : Visit} {f n : Node} (hv : v ∈ s.pages) (hf : f ∈ v.module.children)
      (hfile : Contents.isFile f = true) (hn : n ∈ f.children)
      (hkind : n.isClass = true ∨ n.isFunction = true ∨ n.isAttribute = true) : s.Expects n
  | member {v : Visit} {f c n : Node} (hv : v ∈ s.pages) (hf : f ∈ v.module.children)
      (hfile : Contents.isFile f = true) (hc : c ∈ f.children) (hclass : c.isClass = true)
      (hdocumented : c.isDocumented = true) (hn : n ∈ c.children)
      (hkind : n.isFunction = true ∨ n.isAttribute = true) (hown : n.isInherited = false) :
      s.Expects n

namespace Node

variable {n : Node}

theorem isModule_eq_false_of_kind
    (h : n.isClass = true ∨ n.isFunction = true ∨ n.isAttribute = true) : n.isModule = false := by
  unfold isClass isFunction isAttribute at h
  unfold isModule
  cases hk : n.info.kind <;> simp_all

theorem isDocumented_of_mem_elements {m : Node} (h : n ∈ m.elements) : n.isDocumented = true := by
  have hdeclared : ∀ {k : Node}, k ∈ Contents.declared m → k.isDocumented = true := by
    intro k hk
    obtain ⟨f, -, hk⟩ := List.mem_flatMap.mp hk
    exact (List.mem_filter.mp hk).2
  have hown : ∀ {k : Node}, Contents.isOwn k = true → k.isDocumented = true := fun hk =>
    (Bool.and_eq_true_iff.mp hk).1
  simp only [elements, List.cons_append, List.mem_append, List.mem_flatMap, List.mem_cons] at h
  rcases h with (hn | hn) | ⟨c, hc, rfl | hn | hn⟩
  · exact hdeclared (List.mem_filter.mp hn).1
  · exact hdeclared (List.mem_filter.mp hn).1
  · exact hdeclared (List.mem_filter.mp hc).1
  · exact hown (Bool.and_eq_true_iff.mp (List.mem_filter.mp hn).2).2
  · exact hown (Bool.and_eq_true_iff.mp (List.mem_filter.mp hn).2).2

end Node

namespace Snapshot

variable {s : Snapshot} {n : Node}

theorem Expects.mem_nodes (hs : s.Sound) (h : s.Expects n) : n ∈ s.nodes := by
  have hmember : ∀ {v : Visit} {c : Node}, v ∈ s.pages → c ∈ v.module.children → c ∈ s.nodes :=
    fun hv hc => child_mem_nodes (module_of_mem_pages hs hv).1 hc
  cases h with
  | root _ => exact s.root_mem_nodes
  | package hv hn _ => exact hmember hv hn
  | declaration hv hf _ hn _ => exact child_mem_nodes (hmember hv hf) hn
  | member hv hf _ hc _ _ hn _ _ => exact child_mem_nodes (child_mem_nodes (hmember hv hf) hc) hn

/-- Plain files need no docstring. -/
theorem Expects.isFile_eq_false (h : s.Expects n) : Contents.isFile n = false := by
  rw [Contents.isFile]
  cases h with
  | root hpackage => simp [hpackage]
  | package _ _ hpackage => simp [hpackage]
  | declaration _ _ _ _ hkind => simp [Node.isModule_eq_false_of_kind hkind]
  | member _ _ _ _ _ _ _ hkind _ => simp [Node.isModule_eq_false_of_kind (.inr hkind)]

/-- Of what should have a docstring and has none, only the root is on a page. -/
theorem eq_root_of_mem_onPage {v : Visit} (hv : v ∈ s.pages) (hn : n ∈ v.module.onPage)
    (hfile : Contents.isFile n = false) (hundocumented : n.isDocumented = false) :
    v.module = s.root ∧ n = s.root := by
  rw [Node.onPage_eq, List.cons_append, List.mem_cons, List.mem_append] at hn
  rcases hn with rfl | hn | hn
  · rcases (Node.walkFrom_modules hv).2 with hroot | hkeep
    · exact ⟨hroot, hroot⟩
    · rw [(Bool.and_eq_true_iff.mp hkeep).2] at hundocumented
      cases hundocumented
  · rw [(List.mem_filter.mp hn).2] at hfile
    cases hfile
  · rw [Node.isDocumented_of_mem_elements hn] at hundocumented
    cases hundocumented

end Snapshot

/-! ## Findings -/

namespace Project

variable {p : Project} {n : Node} {path : String}

theorem missingDocstring_mem_findings_documentationOf_iff :
    .missingDocstring path ∈ (p.documentationOf n).findings ↔
      n.isDocumented = false ∧ Contents.isFile n = false ∧ path = n.path := by
  unfold documentationOf
  split
  · next hdocumented =>
    -- tags and sections at fault are found, and neither is a missing docstring
    refine iff_of_false (fun h => ?_) (by simp [hdocumented])
    rcases List.mem_append.mp h with h | h
    · obtain ⟨fault, -, hfault⟩ := List.mem_map.mp h
      cases hfault
    · simp only [Noted.findings_each, findings_renderSection, List.mem_flatMap] at h
      obtain ⟨part, -, t, -, h⟩ := h
      cases (p.mem_findings_renderTag_iff n.path).mp h
  · next hdocumented =>
    rw [Bool.not_eq_true] at hdocumented
    split
    · next hexpected =>
      have hfile : Contents.isFile n = false := by
        cases hmodule : n.isModule <;> simp_all [Contents.isFile]
      simp [hdocumented, hfile, Noted.found]
    · next hexpected =>
      have hfile : Contents.isFile n = true := by
        cases hmodule : n.isModule <;> simp_all [Contents.isFile]
      simp [hfile]

theorem missingDocstring_not_mem_findings_codeOf :
    .missingDocstring path ∉ (p.codeOf n).findings := by
  rw [mem_findings_codeOf_iff]
  rintro ⟨reference, -, h⟩
  rcases mem_findings_resolve_iff.mp h with ⟨-, -, h⟩ | ⟨-, -, h⟩ <;> cases h

/-- A page finds the docstrings missing that the nodes on it do not have. -/
theorem missingDocstring_mem_findings_pageOf_iff {m : Node} (hm : m.isModule = true) :
    .missingDocstring path ∈ (p.pageOf m).findings ↔
      ∃ n ∈ m.onPage, n.isDocumented = false ∧ Contents.isFile n = false ∧ path = n.path := by
  simp only [findings_pageOf hm, List.mem_flatMap, List.mem_append, Node.mem_entryOrder_iff,
    missingDocstring_mem_findings_documentationOf_iff, missingDocstring_not_mem_findings_codeOf,
    or_false]

theorem missingDocstring_mem_findings_iff {s : Snapshot} {settings : Settings}
    {project : Noted Project} (hs : s.Sound) (hbuild : Project.build s settings = .ok project) :
    .missingDocstring path ∈
        project.findings ++ (s.pages.flatMap fun v => (project.value.pageOf v.module).findings) ↔
      s.root.isPackage = true ∧ s.root.isDocumented = false ∧ path = s.root.path := by
  have htables : .missingDocstring path ∉ project.findings := by
    rw [(built_of_build hbuild).2]
    intro h
    obtain ⟨r, -, hr⟩ := List.mem_filterMap.mp h
    cases r <;> cases hr
  have hfile : Contents.isFile s.root = false ↔ s.root.isPackage = true := by
    simp [Contents.isFile, hs.root_isModule]
  rw [List.mem_append, or_iff_right htables, List.mem_flatMap]
  constructor
  · rintro ⟨v, hv, h⟩
    have hm := (Snapshot.module_of_mem_pages hs hv).2
    obtain ⟨n, hn, hundocumented, hnfile, rfl⟩ :=
      (missingDocstring_mem_findings_pageOf_iff hm).mp h
    obtain ⟨-, rfl⟩ := Snapshot.eq_root_of_mem_onPage hv hn hnfile hundocumented
    exact ⟨hfile.mp hnfile, hundocumented, rfl⟩
  · rintro ⟨hpackage, hundocumented, rfl⟩
    refine ⟨⟨0, s.root⟩, s.root_mem_pages, ?_⟩
    exact (missingDocstring_mem_findings_pageOf_iff hs.root_isModule).mpr
      ⟨s.root, List.mem_cons_self, hundocumented, hfile.mpr hpackage, rfl⟩

end Project

/-! ## The report of a run -/

section Report

variable {σ : Type} (fs : FileSystem (StateM σ)) {st st' : σ} {d : Declaration} {s : Snapshot}
  {settings : Settings} {report : Report}

/-- A run reports the docstring of the root, if that is a package without one, and no other. -/
theorem contains_missingDocstrings_of_generate (hs : s.Sound)
    (hrun : (generate fs s settings).run.run st = (.ok report, st')) (path : String) :
    report.diagnostics.missingDocstrings.contains path = true ↔
      s.root.isPackage = true ∧ s.root.isDocumented = false ∧ path = s.root.path := by
  obtain ⟨project, hbuild, hreport⟩ := diagnostics_of_generate fs hrun
  rw [← Project.missingDocstring_mem_findings_iff hs hbuild, hreport]
  refine (Diagnostics.contains_ofFindings _ .missingDocstrings).trans ?_
  constructor
  · rintro ⟨f, hf, hname⟩
    cases f <;> cases hname
    exact hf
  · intro h
    exact ⟨_, h, rfl⟩

/-- A run that succeeds reports the docstring of the root, if that is a package without one, and no
other. What else should have a docstring and has none is on no page and is not reported. So all
missing docstrings are reported iff only the root has none. -/
theorem generate_reports_missing_docstrings (hload : Snapshot.load d = .ok s)
    (hrun : (generate fs s settings).run.run st = (.ok report, st')) :
    let missing := report.diagnostics.missingDocstrings
    (∀ path, missing.contains path = true ↔
      s.root.isPackage = true ∧ s.root.isDocumented = false ∧ path = s.root.path) ∧
    (∀ n, s.Expects n → n.isDocumented = false → n ≠ s.root →
      (∀ v ∈ s.pages, n ∉ v.module.onPage) ∧ missing.contains n.path = false) ∧
    ((∀ n, s.Expects n → n.isDocumented = false → missing.contains n.path = true) ↔
      ∀ n, s.Expects n → n.isDocumented = false → n = s.root) := by
  intro missing
  have hs := Snapshot.Sound.of_load hload
  have hmissing : ∀ path, missing.contains path = true ↔
      s.root.isPackage = true ∧ s.root.isDocumented = false ∧ path = s.root.path :=
    contains_missingDocstrings_of_generate fs hs hrun
  have hroot : ∀ n, s.Expects n → missing.contains n.path = true → n = s.root := by
    intro n hn h
    exact hs.eq_of_path (hn.mem_nodes hs) s.root_mem_nodes ((hmissing _).mp h).2.2
  refine ⟨hmissing, fun n hn hundocumented hne => ⟨fun v hv hpage => hne ?_, ?_⟩, ?_⟩
  · exact (Snapshot.eq_root_of_mem_onPage hv hpage hn.isFile_eq_false hundocumented).2
  · rw [← Bool.not_eq_true]
    exact fun h => hne (hroot n hn h)
  · constructor
    · intro h n hn hundocumented
      exact hroot n hn (h n hn hundocumented)
    · intro h n hn hundocumented
      cases h n hn hundocumented
      refine (hmissing _).mpr ⟨?_, hundocumented, rfl⟩
      simpa [Contents.isFile, hs.root_isModule] using hn.isFile_eq_false

/-- A function without a docstring. -/
def bareFunction : Declaration :=
  .mk { DeclFields.named .function "run" with
      lineno := some 1, endlineno := some 1, lines := ["def run(): pass"] } []

/-- A package without a docstring, with the function in a file. -/
def barePackage : Declaration :=
  .mk { DeclFields.named .module "p" with filepath := some "p/__init__.py" }
    [.mk { DeclFields.named .module "core" with filepath := some "p/core.py" } [bareFunction]]

theorem isOk_generate_barePackage :
    ((generate Store.fileSystem ⟨Node.ofDeclaration barePackage⟩
      Settings.standard).run.run Store.empty).1.isOk = true := by
  decide +kernel

/-- Written to an empty directory, the package is reported. -/
theorem barePackage_reported :
    ∃ s report st', Snapshot.load barePackage = .ok s ∧
      (generate Store.fileSystem s Settings.standard).run.run Store.empty = (.ok report, st') ∧
      report.diagnostics.missingDocstrings.contains "p" = true := by
  obtain ⟨report, st', hrun⟩ := exists_run_eq_of_isOk isOk_generate_barePackage
  refine ⟨_, report, st', rfl, hrun, ?_⟩
  have h := generate_reports_missing_docstrings Store.fileSystem (d := barePackage) rfl hrun
  exact (h.1 "p").mpr ⟨by decide +kernel, by decide +kernel, by decide +kernel⟩

/-- The function is not, though it stands in a file of the package and has no docstring either. -/
theorem barePackage_function_not_reported :
    ∃ s report st' n, Snapshot.load barePackage = .ok s ∧
      (generate Store.fileSystem s Settings.standard).run.run Store.empty = (.ok report, st') ∧
      s.Expects n ∧ n.isDocumented = false ∧ n.path = "p.core.run" ∧
      report.diagnostics.missingDocstrings.contains n.path = false := by
  obtain ⟨report, st', hrun⟩ := exists_run_eq_of_isOk isOk_generate_barePackage
  have hload : Snapshot.load barePackage = .ok ⟨Node.ofDeclaration barePackage⟩ := rfl
  have hpath : "p.core.run" ≠ (Node.ofDeclaration barePackage).path := by decide +kernel
  refine ⟨_, report, st', Node.build "p.core.run" (some "p/core.py") bareFunction, hload, hrun,
    ?_, rfl, rfl, ?_⟩
  · exact .declaration (f := Node.build "p.core" (some "p/core.py") (.mk _ [bareFunction]))
      (Snapshot.root_mem_pages _) List.mem_cons_self rfl List.mem_cons_self (.inr (.inl rfl))
  · rw [← Bool.not_eq_true]
    intro h
    exact hpath ((contains_missingDocstrings_of_generate Store.fileSystem (.of_load hload) hrun
      _).mp h).2.2

end Report

end ApiPages
