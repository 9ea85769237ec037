import ApiPages.Proofs.RunDiagnostics
import ApiPages.Proofs.FindingOrder

/-!
# The order of work

Texts are rendered, paths are resolved and pages are built in some order, and what is found on the
way is recorded or merged in that order. The diagnostics do not tell which one it was. Bins of names
and of descriptions only grow. In the bin of unresolved cross-links a later list of candidates
replaces an earlier one, but a project gives one list to a cross-link, whenever it comes to it.

Results:

* `Project.OfTags`: findings about cross-links that come from tags, as those of queries and pages
  do.
* `Project.recordEach_perm`: such findings are recorded alike in every order of the work.
* `Project.order_leaves_no_trace`: the order of queries, and the order in which the diagnostics of
  pages are merged.
-/

namespace ApiPages

/-- What the tables of a project are asked. -/
inductive Query where
  /-- A text of the symbol `parent` with its tags rendered. -/
  | links (text parent : String)
  /-- The link of a canonical path. -/
  | path (path : String)

namespace Project

/-- What is found when a query is answered. -/
def findingsOf (p : Project) : Query → List Finding
  | .links text parent => (p.renderLinks parent text).findings
  | .path path => (p.resolve path).findings

/-- The diagnostics after a query is answered. -/
def answer (p : Project) (d : Diagnostics) (q : Query) : Diagnostics := d.recordAll (p.findingsOf q)

/-- The diagnostics with those of the page of a module merged into them. -/
def mergePage (p : Project) (d : Diagnostics) (module : Node) : Diagnostics :=
  d.merge (Diagnostics.ofFindings (p.pageOf module).findings)

variable {p : Project}

/-! ## Where findings about cross-links come from -/

/-- The findings about cross-links come from tags. -/
def OfTags (p : Project) (fs : List Finding) : Prop :=
  ∀ f ∈ fs, ∀ e, Diagnostics.linkOf? f = some e → ∃ parent t, t.Fit ∧ p.TagFault parent t f

namespace OfTags

variable {α β : Type}

theorem nil : p.OfTags [] := by
  intro f hf
  cases hf

theorem flatMap {xs : List α} {g : α → List Finding} (h : ∀ x ∈ xs, p.OfTags (g x)) :
    p.OfTags (xs.flatMap g) := by
  intro f hf
  obtain ⟨x, hx, hf⟩ := List.mem_flatMap.mp hf
  exact h x hx f hf

theorem bind {x : Noted α} {g : α → Noted β} (hx : p.OfTags x.findings)
    (hg : ∀ a, p.OfTags (g a).findings) : p.OfTags (x >>= g).findings := by
  intro f hf
  rw [Noted.findings_bind, List.mem_append] at hf
  rcases hf with hf | hf
  · exact hx f hf
  · exact hg _ f hf

theorem each {g : α → Noted β} (h : ∀ x, p.OfTags (g x).findings) (xs : List α) :
    p.OfTags (Noted.each g xs).findings := by
  rw [Noted.findings_each]
  exact flatMap fun x _ => h x

theorem renderLinks (parent text : String) : p.OfTags (p.renderLinks parent text).findings := by
  intro f hf e _
  rw [findings_renderLinks] at hf
  obtain ⟨t, ht, hf⟩ := List.mem_flatMap.mp hf
  exact ⟨parent, t, .of_mem_tagsOf ht, (mem_findings_renderTag_iff p parent).mp hf⟩

theorem resolve (path : String) : p.OfTags (p.resolve path).findings := by
  intro f hf e he
  rcases mem_findings_resolve_iff.mp hf with ⟨-, -, rfl⟩ | ⟨-, -, rfl⟩ <;> cases he

theorem findingsOf (q : Query) : p.OfTags (p.findingsOf q) := by
  cases q with
  | links text parent => exact renderLinks parent text
  | path path => exact resolve path

/-! ## Pages -/

theorem documentationOf (n : Node) : p.OfTags (p.documentationOf n).findings := by
  intro f hf e he
  have href : f.IsReference := by
    cases f with
    | unresolvedLink parent link candidates => trivial
    | _ => cases he
  obtain ⟨t, ht, hfault⟩ := (mem_findings_documentationOf_iff href).mp hf
  exact ⟨n.path, t, ht.fit, hfault⟩

theorem codeOf (n : Node) : p.OfTags (p.codeOf n).findings := by
  intro f hf
  obtain ⟨path, -, hf⟩ := mem_findings_codeOf_iff.mp hf
  exact resolve path f hf

theorem attributeEntry (role : String) (n : Node) :
    p.OfTags (p.attributeEntry role n).findings :=
  bind (documentationOf n) fun _ => bind (codeOf n) fun _ => nil

theorem callableEntry (role : String) (n : Node) : p.OfTags (p.callableEntry role n).findings :=
  bind (documentationOf n) fun _ => bind (codeOf n) fun _ => nil

theorem classEntry (n : Node) : p.OfTags (p.classEntry n).findings :=
  bind (each (attributeEntry _) _) fun _ => bind (each (callableEntry _) _) fun _ =>
    bind (documentationOf n) fun _ => bind (codeOf n) fun _ => nil

theorem fileEntry (n : Node) : p.OfTags (p.fileEntry n).findings :=
  bind (documentationOf n) fun _ => nil

theorem pageOf (m : Node) : p.OfTags (p.pageOf m).findings :=
  bind (each (attributeEntry _) _) fun _ => bind (each classEntry _) fun _ =>
    bind (each (callableEntry _) _) fun _ => bind (each fileEntry _) fun _ =>
      bind (documentationOf m) fun _ => nil

end OfTags

/-! ## Recording in any order -/

/-- Work that is done piece by piece, with the findings of each piece recorded after it. -/
theorem recordEach_eq {α : Type} (g : α → List Finding) (d : Diagnostics) (xs : List α) :
    xs.foldl (fun d x => d.recordAll (g x)) d = d.recordAll (xs.flatMap g) := by
  induction xs generalizing d with
  | nil => rfl
  | cons x xs ih => rw [List.foldl_cons, ih, List.flatMap_cons, Diagnostics.recordAll_append]

/-- The order of the work leaves no trace if what it finds about cross-links comes from tags. -/
theorem recordEach_perm {α : Type} {g : α → List Finding} (hg : ∀ x, p.OfTags (g x))
    (d : Diagnostics) {xs ys : List α} (h : xs.Perm ys) :
    xs.foldl (fun d x => d.recordAll (g x)) d = ys.foldl (fun d x => d.recordAll (g x)) d := by
  rw [recordEach_eq, recordEach_eq]
  refine Diagnostics.recordAll_congr d (fun f => ?_) ?_
  · simp only [List.mem_flatMap, h.mem_iff]
  · exact linksAgree_of_tagFault (OfTags.flatMap fun x _ => hg x)

/-- The diagnostics do not depend on the order of the work. Whatever is in the bins at first,
queries that are answered in two orders leave the same diagnostics, and so do the pages of modules
whose diagnostics are merged in two orders. -/
theorem order_leaves_no_trace (p : Project) (d : Diagnostics) :
    (∀ qs qs' : List Query, qs.Perm qs' → qs.foldl p.answer d = qs'.foldl p.answer d) ∧
    ∀ ms ms' : List Node, ms.Perm ms' → ms.foldl p.mergePage d = ms'.foldl p.mergePage d := by
  constructor
  · intro qs qs' h
    exact recordEach_perm OfTags.findingsOf d h
  · intro ms ms' h
    have hmerge : p.mergePage = fun d m => d.recordAll (p.pageOf m).findings := by
      funext d m
      exact d.merge_ofFindings _
    rw [hmerge]
    exact recordEach_perm OfTags.pageOf d h

/-- A package with two files that declare a class of the same name, and with a package inside. -/
def namesakes : Declaration :=
  let klass : Declaration :=
    .mk { DeclFields.named .classType "X" with docstring := some "See :class:`X`." } []
  .mk { DeclFields.named .module "p" with
      filepath := some "p/__init__.py", docstring := some "See :class:`X` and :foo:`x`." }
    [.mk { DeclFields.named .module "a" with filepath := some "p/a.py" } [klass],
      .mk { DeclFields.named .module "b" with filepath := some "p/b.py" } [klass],
      .mk { DeclFields.named .module "q" with
        filepath := some "p/q/__init__.py", docstring := some "See :class:`X`." } []]

/-- The bins hold an old list of candidates for a tag of the package. Two texts with the tag and a
path that leads nowhere, or the two pages, replace the list by the same one in both orders. -/
theorem namesakes_in_both_orders :
    ∃ project : Noted Project,
      Project.build ⟨Node.ofDeclaration namesakes⟩
        { Settings.standard with useStandardLinks := false } = .ok project ∧
      ∃ d : Diagnostics, d.unresolvedLinks.get? "p=>:class:`X`" = some [] ∧
      ∃ d' : Diagnostics, d'.unresolvedLinks.get? "p=>:class:`X`" = some ["a.X", "b.X"] ∧
        [Query.links "A :class:`X`." "p", .path "p.x", .links ":class:`X`" "p"].foldl
          project.value.answer d = d' ∧
        [Query.links ":class:`X`" "p", .path "p.x", .links "A :class:`X`." "p"].foldl
          project.value.answer d = d' ∧
      ∃ d' : Diagnostics, d'.unresolvedLinks.get? "p=>:class:`X`" = some ["a.X", "b.X"] ∧
        ((Snapshot.pages ⟨Node.ofDeclaration namesakes⟩).map Visit.module).foldl
          project.value.mergePage d = d' ∧
        ((Snapshot.pages ⟨Node.ofDeclaration namesakes⟩).map Visit.module).reverse.foldl
          project.value.mergePage d = d' := by
  refine ⟨_, rfl, Diagnostics.empty.record (.unresolvedLink "p" ":class:`X`" []), rfl,
    _, ?_, rfl, ?_, _, ?_, rfl, ?_⟩
  · decide +kernel
  · exact (order_leaves_no_trace _ _).1 _ _ (List.reverse_perm [_, _, _])
  · decide +kernel
  · exact (order_leaves_no_trace _ _).2 _ _ (List.reverse_perm _)

end Project

end ApiPages
