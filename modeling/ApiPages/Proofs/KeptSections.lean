import ApiPages.Proofs.ReferenceAgreement
import ApiPages.Proofs.Reporting

/-!
# What documentation keeps of a docstring

The documentation of a function shows every section of its docstring once: remarks in the order of
the docstring, then what is said about the returned value, then parameters. Other symbols show the
remarks only. A section that is dropped is described among the errors of the symbol, and nothing
else is.

Results:

* `Project.arrange_perm`, `Node.keptSections_perm`: arranging sections loses none and repeats none.
* `Project.filterMap_errorOf?_findings`: the errors found on the way are the faults of the docstring.
* `Project.documentationOf_keeps_sections`: the sections of a documentation, and its errors.
-/

namespace ApiPages

/-! ## Order -/

namespace Project

/-- Sections are arranged without losing or repeating one. -/
theorem arrange_perm (sections : List DocSection) : (arrange sections).Perm sections := by
  have hsort := arrange_eq_mergeSort id sections
  have hperm := (List.mergeSort_perm (sections.map fun s => (rank s, id s)) keyLe).map Prod.snd
  rw [← hsort, List.map_id] at hperm
  simpa [Function.comp_def] using hperm

end Project

/-- A function keeps every section of its docstring once. -/
theorem Node.keptSections_perm {n : Node} (hn : n.isFunction = true) :
    n.keptSections.Perm n.docstring.sections := by
  rw [← n.shownSections_eq_keptSections, Project.shownSections, if_pos hn]
  exact Project.arrange_perm _

/-! ## Documentation -/

namespace Project

variable (p : Project)

variable {n : Node}

/-- Rendering a section finds no error of the symbol. -/
theorem errorOf?_of_mem_findings {parent : String} {s : DocSection} {f : Finding}
    (hf : f ∈ (p.renderSection parent s).findings) : Diagnostics.errorOf? f = none := by
  obtain ⟨text, -, t, -, hfault⟩ := p.mem_findings_renderSection_iff.mp hf
  cases hfault <;> rfl

/-- The errors that are found are the faults of the docstring. -/
theorem filterMap_errorOf?_findings (hn : n.isDocumented = true) :
    (p.documentationOf n).findings.filterMap Diagnostics.errorOf? =
      n.docstring.faults.map fun f => (n.path, NameSet.ofNames [f.message]) := by
  have hsections : (n.keptSections.flatMap fun s =>
      (p.renderSection n.path s).findings).filterMap Diagnostics.errorOf? = [] := by
    rw [List.filterMap_eq_nil_iff]
    intro f hf
    obtain ⟨s, -, hs⟩ := List.mem_flatMap.mp hf
    exact p.errorOf?_of_mem_findings hs
  have hfault : Diagnostics.errorOf? ∘ (fun f : DocFault => .error n.path f.message) =
      some ∘ fun f => (n.path, NameSet.ofNames [f.message]) := rfl
  rw [p.documentationOf_eq hn, List.filterMap_append, hsections, List.append_nil,
    List.filterMap_map, hfault, List.filterMap_eq_map]

/-- The documentation of a node shows the sections that it keeps, in order and with their links
rendered; a function keeps all of them. What is recorded as an error is that of its docstring: the
node has the messages of its faults besides what it had, and nothing else is new. This is what the
program comes to that renders the sections in the order of the docstring, passes the bins through
and sorts afterwards. -/
theorem documentationOf_keeps_sections (hn : n.isDocumented = true) (d : Diagnostics) :
    (Reporting.documentationOf p n).run d =
        ((p.documentationOf n).value, d.recordAll (p.documentationOf n).findings) ∧
    (p.documentationOf n).value.sections =
        n.keptSections.map (DocSection.shown fun text => (p.renderLinks n.path text).value) ∧
    (n.isFunction = true → n.keptSections.Perm n.docstring.sections) ∧
    (∀ path text,
      (Diagnostics.described (d.recordAll (p.documentationOf n).findings).errors path).contains
          text = true ↔
        (Diagnostics.described d.errors path).contains text = true ∨
          n.path = path ∧ ∃ f ∈ n.docstring.faults, f.message = text) ∧
    ∀ path, (d.recordAll (p.documentationOf n).findings).errors.contains path = true ↔
      d.errors.contains path = true ∨ n.path = path ∧ n.docstring.faults ≠ [] := by
  have hmessage : ∀ message text : String,
      (NameSet.ofNames [message]).contains text = true ↔ message = text := by
    intro message text
    rw [NameSet.ofNames, Dict.contains_ofList_iff]
    simp [eq_comm]
  refine ⟨?_, ?_, Node.keptSections_perm, ?_, ?_⟩
  · rw [Reporting.documentationOf_eq]
    rfl
  · exact p.sections_documentationOf n
  · intro path text
    rw [Diagnostics.errors_recordAll, p.filterMap_errorOf?_findings hn,
      Diagnostics.described_foldl_addErrors]
    simp [hmessage, ← and_assoc, and_comm]
  · intro path
    rw [Diagnostics.errors_recordAll, p.filterMap_errorOf?_findings hn,
      Diagnostics.contains_foldl_addErrors]
    simp [List.eq_nil_iff_forall_not_mem, and_comm]

/-- A function whose docstring has its sections out of order, two on parameters, and one that is
malformed. -/
def mixedFunction : Node :=
  Node.ofDeclaration
    (.mk { DeclFields.named .function "make" with
        docstring := some ("Args:\n    x: A.\n\nReturns:\n    B.\n\nArgs:\n    y: C.\n\n" ++
          "Note:\n    D.\n\nArgs:\n    not valid!") } [])

/-- Its remark, its returned value and its parameters are shown in this order, and the malformed
section is recorded. -/
theorem mixedFunction_sections :
    ∃ s project, Snapshot.load packageWithClass = .ok s ∧
      Project.build s Settings.standard = .ok project ∧ mixedFunction.isDocumented = true ∧
      (project.value.documentationOf mixedFunction).value.sections.map DocText.content =
        ["D.", "B.", "\n*  **x**: A.", "\n*  **y**: C."] ∧
      (Diagnostics.described (Diagnostics.empty.recordAll
        (project.value.documentationOf mixedFunction).findings).errors "make").contains
          "malformed entry in Args section: 'not valid!'" = true := by
  refine ⟨⟨Node.ofDeclaration packageWithClass⟩, _, rfl, rfl, by decide +kernel, ?_⟩
  obtain ⟨-, hsections, -, herrors, -⟩ :=
    documentationOf_keeps_sections _ (n := mixedFunction) (by decide +kernel) .empty
  refine ⟨?_, (herrors _ _).mpr (Or.inr ⟨rfl, ?_⟩)⟩
  · rw [hsections]
    decide +kernel
  · exact ⟨.malformedEntry "Args" "not valid!", by decide +kernel, rfl⟩

end Project

end ApiPages
