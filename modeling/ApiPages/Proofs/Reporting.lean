import ApiPages.Proofs.FindingOrder
import ApiPages.Run.Basic

/-!
# Passing the diagnostics through

A page is built together with its findings, and these are sorted into bins afterwards. Here pages
are built by programs that have the bins at hand and put every finding there when they come to it.
Sections are rendered in the order of the docstring and sorted then. Such a program does not look at
the bins: it comes to the same page whatever is in them, and what it adds does not depend on that
either.

Results:

* `Noted.thread_bind`, `Noted.mapM_eq_thread`: putting findings in bins follows the order of steps.
* `Reporting.sectionTexts_eq`: the order in which sections are rendered leaves no trace.
* `Reporting.pageOf_eq`: the program that passes the bins through builds the page and records its
  findings.
* `Reporting.pageOf_merges`: it may as well start with empty bins, which are merged afterwards.
-/

namespace ApiPages

/-- Programs that have the diagnostics at hand. -/
abbrev Reporting := StateM Diagnostics

/-! ## Programs -/

namespace Reporting

/-- Puts a finding in its bin. -/
def report (f : Finding) : Reporting Unit := modify fun d => d.record f

variable (p : Project)

/-- The link of a canonical path. -/
def resolve (path : String) : Reporting (Option String) :=
  if p.isInternal path then
    match p.navigationOf path with
    | some navigation => return some (p.navigationLink navigation)
    | none => do
      report (.internalReference path)
      return none
  else
    match p.externalLinks.get? path with
    | some url => return some url
    | none => do
      report (.externalReference path)
      return none

/-- A tag of a known kind in the text of the symbol `parent`. -/
def renderTarget (parent : String) (kind : TagKind) (link : String) (t : Target) :
    Reporting String :=
  if t.path.isEmpty then do
    report (.unresolvedLink parent link [])
    return t.label
  else if p.isInternal t.path then
    match p.navigationOf t.path with
    | some n => return Project.markdownLink t.label (p.navigationLink n)
    | none => do
      report (.internalReference t.path)
      return t.label
  else
    match p.navigationOf (DottedPath.child p.rootName t.path) with
    | some n => return Project.markdownLink t.label (p.navigationLink n)
    | none =>
      match p.externalLinks.get? t.path with
      | some url => return Project.markdownLink t.label url
      | none => do
        match p.candidates kind t.path with
        | [] => report (.externalReference t.path)
        | cs => report (.unresolvedLink parent link cs)
        return t.label

/-- A tag in the text of the symbol `parent`. -/
def renderTag (parent : String) (t : Tag) : Reporting String :=
  let word := String.ofList t.word
  let target := Target.ofBody t.body
  match TagKind.ofWord? word with
  | none => do
    report (.unknownTag parent word)
    return target.label
  | some kind => renderTarget p parent kind (String.ofList t.text) target

/-- A piece of the text of the symbol `parent`. -/
def renderPiece (parent : String) : Piece → Reporting (List Char)
  | .plain s => return s
  | .tag t => do
    let text ← renderTag p parent t
    return text.toList

/-- The text of the symbol `parent` with its tags rendered. -/
def renderLinks (parent text : String) : Reporting String := do
  let parts ← (pieces text.toList).mapM (renderPiece p parent)
  return String.ofList parts.flatten

/-- An entry of the list of parameters. -/
def renderParameter (parent : String) (i : DocParameter) : Reporting String := do
  let description ← renderLinks p parent i.description
  return "\n*  **" ++ i.name ++ "**: " ++ description

/-- A section of the docstring of the symbol `parent`. -/
def renderSection (parent : String) : DocSection → Reporting DocText
  | .text text => do
    let content ← renderLinks p parent text
    return ⟨none, content, Semantic.ofRole "text"⟩
  | .admonition title tag body => do
    let content ← renderLinks p parent body
    return ⟨some title, content, (Semantic.ofRole "admonition").withAttribute "tag" tag⟩
  | .returns _ description => do
    let content ← renderLinks p parent description
    return ⟨some "Returns", content, Semantic.ofRole "returns"⟩
  | .parameters items => do
    let contents ← items.mapM (renderParameter p parent)
    return ⟨some "Arguments", String.join contents, Semantic.ofRole "arguments"⟩

/-- The sections of the docstring of a symbol: those that it shows are rendered one after the other
and, for a function, sorted by their places then. -/
def sectionTexts (n : Node) (sections : List DocSection) : Reporting (List DocText) := do
  let shown := sections.filter fun s => n.isFunction || Project.rank s == 0
  let ranked ← shown.mapM fun s => do
    let text ← renderSection p n.path s
    return (Project.rank s, text)
  let ranked := if n.isFunction then ranked.mergeSort Project.keyLe else ranked
  return ranked.map Prod.snd

/-- The documentation of a symbol. -/
def documentationOf (n : Node) : Reporting Documentation :=
  if n.isDocumented then do
    let d := Docstring.parse (n.info.docstring.getD "").toList
    d.faults.forM fun f => report (.error n.path f.message)
    let texts ← sectionTexts p n d.sections
    return ⟨texts⟩
  else if n.isPackage || !n.isModule then do
    report (.missingDocstring n.path)
    return ⟨[]⟩
  else return ⟨[]⟩

/-- The source of a symbol. -/
def codeOf (n : Node) : Reporting Code := do
  let links ← (Project.linkedNames n).mapM fun r => do
    let link ← resolve p r.path
    return (r.spelling, link)
  return {
    file := p.snapshot.relativeFile n
    startLine := n.info.lineno
    endLine := n.info.endlineno
    declaration := String.ofList (Project.declarationOf n)
    implementation := if Project.refersToItself n then some (String.ofList n.source) else none
    references := Dict.ofList links }

/-- An attribute in a role. -/
def attributeEntry (role : String) (n : Node) : Reporting AttributeEntry := do
  let documentation ← documentationOf p n
  let code ← codeOf p n
  return {
    name := n.name, semantic := Semantic.ofRole role, documentation
    path := p.relativePath n, code }

/-- A function in a role. -/
def callableEntry (role : String) (n : Node) : Reporting CallableEntry := do
  let documentation ← documentationOf p n
  let code ← codeOf p n
  return {
    name := n.name, documentation, path := p.relativePath n, code
    semantic := Semantic.ofRole role }

/-- A class with the documented members that it declares. -/
def classEntry (n : Node) : Reporting ClassEntry := do
  let attributes ← (Contents.classAttributes n).mapM (attributeEntry p "attribute")
  let callables ← (Contents.methods n).mapM (callableEntry p "method")
  let documentation ← documentationOf p n
  let code ← codeOf p n
  return {
    name := n.name, documentation, path := p.relativePath n
    semantic := (Semantic.ofRole "class").withRelation "inherits" (Project.basePaths n)
    attributes, callables, code }

/-- A plain file. -/
def fileEntry (n : Node) : Reporting FileEntry := do
  let documentation ← documentationOf p n
  return { name := n.name, path := p.snapshot.relativeFile n, documentation }

/-- The page of a module. -/
def pageOf (module : Node) : Reporting Page := do
  let c := Contents.ofModule module
  let attributes ← c.attributes.mapM (attributeEntry p "global")
  let types ← c.classes.mapM (classEntry p)
  let callables ← c.functions.mapM (callableEntry p "function")
  let files ← c.files.mapM (fileEntry p)
  let documentation ← documentationOf p module
  return {
    name := module.name
    path := p.relativePath module
    semantic := Semantic.ofRole "module"
    children := c.packages.map Project.childEntry
    attributes := attributes.mergeSort fun a b => decide (a.name ≤ b.name)
    types, callables, files, documentation }

end Reporting

/-! ## Findings put in bins -/

namespace Noted

variable {α β : Type}

/-- The program that puts the findings in their bins and returns the value. -/
def thread (x : Noted α) : Reporting α := fun d => (x.value, d.recordAll x.findings)

@[simp] theorem thread_pure (a : α) : (pure a : Noted α).thread = pure a := rfl

@[simp] theorem thread_bind (x : Noted α) (f : α → Noted β) :
    (x >>= f).thread = x.thread >>= fun a => (f a).thread := by
  funext d
  show _ = ((f x.value).value, (d.recordAll x.findings).recordAll (f x.value).findings)
  rw [← Diagnostics.recordAll_append]
  rfl

theorem each_cons (f : α → Noted β) (x : α) (xs : List α) :
    each f (x :: xs) = (do let y ← f x; let ys ← each f xs; return y :: ys) := by
  show _ = Noted.mk _ (_ ++ (_ ++ []))
  rw [List.append_nil]
  rfl

/-- A loop over programs that put findings in bins. -/
theorem mapM_eq_thread {g : α → Reporting β} {f : α → Noted β} (h : ∀ x, g x = (f x).thread)
    (xs : List α) : xs.mapM g = (each f xs).thread := by
  induction xs with
  | nil => rfl
  | cons x xs ih =>
    rw [each_cons, List.mapM_cons, thread_bind, h, ih]
    simp only [thread_bind, thread_pure]

theorem forM_eq_thread (g : α → Finding) (xs : List α) :
    xs.forM (fun x => Reporting.report (g x)) = (⟨(), xs.map g⟩ : Noted Unit).thread := by
  induction xs with
  | nil => rfl
  | cons x xs ih =>
    show (do Reporting.report (g x); xs.forM fun x => Reporting.report (g x)) = _
    rw [ih]
    rfl

end Noted

/-! ## The two ways to build a page -/

namespace Reporting

variable (p : Project)

theorem resolve_eq (path : String) : resolve p path = (p.resolve path).thread := by
  unfold resolve Project.resolve
  split
  · cases p.navigationOf path <;> rfl
  · cases p.externalLinks.get? path <;> rfl

theorem renderTarget_eq (parent : String) (kind : TagKind) (link : String) (t : Target) :
    renderTarget p parent kind link t = (p.renderTarget parent kind link t).thread := by
  unfold renderTarget Project.renderTarget
  split
  · rfl
  · split
    · cases p.navigationOf t.path <;> rfl
    · cases p.navigationOf (DottedPath.child p.rootName t.path) with
      | some n => rfl
      | none =>
        cases p.externalLinks.get? t.path with
        | some url => rfl
        | none => cases p.candidates kind t.path <;> rfl

theorem renderTag_eq (parent : String) (t : Tag) :
    renderTag p parent t = (p.renderTag parent t).thread := by
  unfold renderTag Project.renderTag
  simp only
  cases TagKind.ofWord? (String.ofList t.word) with
  | none => rfl
  | some kind => exact renderTarget_eq p parent kind _ _

theorem renderPiece_eq (parent : String) (piece : Piece) :
    renderPiece p parent piece = (p.renderPiece parent piece).thread := by
  cases piece with
  | plain s => rfl
  | tag t =>
    rw [renderPiece, renderTag_eq]
    rfl

theorem renderLinks_eq (parent text : String) :
    renderLinks p parent text = (p.renderLinks parent text).thread := by
  rw [renderLinks, Noted.mapM_eq_thread (renderPiece_eq p parent)]
  rfl

theorem renderParameter_eq (parent : String) (i : DocParameter) :
    renderParameter p parent i = (p.renderParameter parent i).thread := by
  rw [renderParameter, renderLinks_eq, Project.renderParameter, Noted.thread_bind]
  rfl

theorem renderSection_eq (parent : String) (s : DocSection) :
    renderSection p parent s = (p.renderSection parent s).thread := by
  cases s with
  | text text =>
    rw [renderSection, renderLinks_eq, Project.renderSection, Noted.thread_bind]
    rfl
  | admonition title tag body =>
    rw [renderSection, renderLinks_eq, Project.renderSection, Noted.thread_bind]
    rfl
  | returns typeText description =>
    rw [renderSection, renderLinks_eq, Project.renderSection, Noted.thread_bind]
    rfl
  | parameters items =>
    rw [renderSection, Noted.mapM_eq_thread (renderParameter_eq p parent), Project.renderSection,
      Noted.thread_bind]
    rfl

/-! ## Documentation -/

/-- The findings of sections come from their tags, so they agree. -/
theorem linksAgree_renderSection (parent : String) (sections : List DocSection) :
    Diagnostics.LinksAgree (sections.flatMap fun s => (p.renderSection parent s).findings) := by
  refine Project.linksAgree_of_tagFault (p := p) fun f hf e he => ?_
  obtain ⟨s, hs, hf⟩ := List.mem_flatMap.mp hf
  rw [Project.findings_renderSection] at hf
  obtain ⟨t, ht, hf⟩ := List.mem_flatMap.mp hf
  obtain ⟨text, -, ht⟩ := List.mem_flatMap.mp ht
  exact ⟨parent, t, .of_mem_tagsOf ht, (Project.mem_findings_renderTag_iff p parent).mp hf⟩

/-- The order in which sections are rendered leaves no trace. -/
theorem sectionTexts_eq (n : Node) (sections : List DocSection) :
    sectionTexts p n sections =
      (Noted.each (p.renderSection n.path) (Project.shownSections n sections)).thread := by
  have hranked : ∀ s, (do
      let text ← renderSection p n.path s
      return (Project.rank s, text)) = (do
        let text ← p.renderSection n.path s
        return (Project.rank s, text) : Noted _).thread := by
    intro s
    rw [renderSection_eq, Noted.thread_bind]
    rfl
  rw [sectionTexts, Noted.mapM_eq_thread hranked]
  funext d
  show (List.map Prod.snd (if n.isFunction = true then List.mergeSort (Noted.each _ _).value _
    else (Noted.each _ _).value), d.recordAll (Noted.each _ _).findings) =
      ((Noted.each _ _).value, d.recordAll (Noted.each _ _).findings)
  simp only [Noted.value_each, Noted.findings_each, Noted.value_bind, Noted.findings_bind,
    Noted.value_pure, Noted.findings_pure, List.append_nil, Project.shownSections]
  by_cases hfun : n.isFunction = true
  · -- the sections are sorted after they are rendered, their findings are not
    have hrecord : d.recordAll (sections.flatMap fun s => (p.renderSection n.path s).findings) =
        d.recordAll ((Project.arrange sections).flatMap fun s =>
          (p.renderSection n.path s).findings) := by
      refine Diagnostics.recordAll_congr d (fun f => ?_)
        (linksAgree_renderSection p n.path sections)
      simp only [List.mem_flatMap, Project.mem_arrange_iff]
    simp [hfun, Project.arrange_eq_mergeSort, hrecord]
  · simp [hfun]

theorem documentationOf_eq (n : Node) : documentationOf p n = (p.documentationOf n).thread := by
  unfold documentationOf Project.documentationOf
  split
  · funext d
    generalize Docstring.parse _ = doc
    rw [Noted.forM_eq_thread, sectionTexts_eq, Noted.thread, Diagnostics.recordAll_append]
    rfl
  · split <;> rfl

/-! ## Pages -/

theorem codeOf_eq (n : Node) : codeOf p n = (p.codeOf n).thread := by
  have hlink : ∀ r : NameRef, (do
      let link ← resolve p r.path
      return (r.spelling, link)) = (p.resolveName r).thread := by
    intro r
    rw [resolve_eq, Project.resolveName, Noted.thread_bind]
    rfl
  rw [codeOf, Noted.mapM_eq_thread hlink]
  simp only [Project.codeOf, Project.referencesOf, Noted.thread_bind, Noted.thread_pure,
    bind_assoc, pure_bind]

theorem attributeEntry_eq (role : String) (n : Node) :
    attributeEntry p role n = (p.attributeEntry role n).thread := by
  simp only [attributeEntry, Project.attributeEntry, documentationOf_eq, codeOf_eq,
    Noted.thread_bind, Noted.thread_pure]

theorem callableEntry_eq (role : String) (n : Node) :
    callableEntry p role n = (p.callableEntry role n).thread := by
  simp only [callableEntry, Project.callableEntry, documentationOf_eq, codeOf_eq,
    Noted.thread_bind, Noted.thread_pure]

theorem classEntry_eq (n : Node) : classEntry p n = (p.classEntry n).thread := by
  simp only [classEntry, Project.classEntry, Noted.mapM_eq_thread (attributeEntry_eq p "attribute"),
    Noted.mapM_eq_thread (callableEntry_eq p "method"), documentationOf_eq, codeOf_eq,
    Noted.thread_bind, Noted.thread_pure]

theorem fileEntry_eq (n : Node) : fileEntry p n = (p.fileEntry n).thread := by
  simp only [fileEntry, Project.fileEntry, documentationOf_eq, Noted.thread_bind,
    Noted.thread_pure]

/-- The program that passes the bins through builds the page and records its findings. -/
theorem pageOf_eq (m : Node) : pageOf p m = (p.pageOf m).thread := by
  simp only [pageOf, Project.pageOf, Noted.mapM_eq_thread (attributeEntry_eq p "global"),
    Noted.mapM_eq_thread (classEntry_eq p), Noted.mapM_eq_thread (callableEntry_eq p "function"),
    Noted.mapM_eq_thread (fileEntry_eq p), documentationOf_eq, Noted.thread_bind,
    Noted.thread_pure]

/-- Writes the pages of a walk with the diagnostics of the run passed through. -/
def writePages {m : Type → Type} [Monad m] (fs : FileSystem m) (out : String) (d : Diagnostics) :
    List Visit → ExceptT Failure m Report
  | [] => pure ⟨[], d⟩
  | v :: walk => do
    let (page, d) := (pageOf p v.module).run d
    let target := pagePath out v.module.path
    fs.replaceFile target (page.toJson.pretty 4)
    let rest ← writePages fs out d walk
    return ⟨target :: rest.written, rest.diagnostics⟩

theorem writePages_eq {m : Type → Type} [Monad m] (fs : FileSystem m) (out : String)
    (d : Diagnostics) (walk : List Visit) :
    writePages p fs out d walk = ApiPages.writePages fs p out d walk := by
  induction walk generalizing d with
  | nil => rfl
  | cons v walk ih =>
    rw [writePages, ApiPages.writePages, pageOf_eq, Diagnostics.merge_ofFindings]
    simp only [← ih]
    rfl

/-- Diagnostics are only written to. Whatever is in the bins when a page is built, the page is the
same, and what is added is what the same program puts in empty bins, merged. It is the page of the
module with its findings. So a run that gives every page empty bins of its own and merges them is,
on every file system, the run that passes its bins through. -/
theorem pageOf_merges (m : Node) (d : Diagnostics) :
    (pageOf p m).run d =
      (((pageOf p m).run .empty).1, d.merge ((pageOf p m).run .empty).2) ∧
    (pageOf p m).run .empty = ((p.pageOf m).value, .ofFindings (p.pageOf m).findings) ∧
    ∀ (M : Type → Type) [Monad M] (fs : FileSystem M) (out : String) (walk : List Visit),
      ApiPages.writePages fs p out d walk = writePages p fs out d walk := by
  have hempty : (pageOf p m).run .empty =
      ((p.pageOf m).value, Diagnostics.ofFindings (p.pageOf m).findings) := by
    rw [pageOf_eq]
    rfl
  refine ⟨?_, hempty, fun M _ fs out walk => (writePages_eq p fs out d walk).symm⟩
  rw [hempty, Diagnostics.merge_ofFindings, pageOf_eq]
  rfl

end Reporting

end ApiPages
