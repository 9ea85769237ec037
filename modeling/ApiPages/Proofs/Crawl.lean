import ApiPages.Proofs.DepthGuard
import ApiPages.Proofs.RunDiagnostics

/-!
# Writing pages by descent

The pages are those of a walk. Here they are written by descent instead: a page is written, and then
those of the packages that it lists, which are looked up by their paths. The descent checks the
depth of what it comes to, and that a path leads to a node. Once the tables are built both checks
are idle: the descent and the walk are the same program on every file system.

Results:

* `crawl_eq_foldlM`, `generate_eq_crawl`: writing by descent is writing along the walk.
* `FailsOnFiles.generate`: once the tables are built, only file operations fail.
* `generate_guards_depth`: when the depth limit ends a run, at which module, and that nothing has
  been written by then.
-/

namespace ApiPages

section Programs

variable {m : Type → Type} [Monad m]

/-- Writes the page of a module and adds it to the report. -/
def writePage (fs : FileSystem m) (p : Project) (out : String) (report : Report) (module : Node) :
    ExceptT Failure m Report := do
  let page := p.pageOf module
  let target := pagePath out module.path
  fs.replaceFile target (page.value.toJson.pretty 4)
  return ⟨report.written ++ [target],
    report.diagnostics.merge (Diagnostics.ofFindings page.findings)⟩

/-- Writes the page of a module at a depth, and then those of the packages that the page lists. -/
def crawl (fs : FileSystem m) (p : Project) (out : String) (depth : Nat) (module : Node)
    (report : Report) : ExceptT Failure m Report :=
  if _h : p.maxDepth < depth then
    throw (.tooDeep module.path p.maxDepth)
  else do
    let report ← writePage fs p out report module
    (p.pageOf module).value.children.foldlM
      (fun report child =>
        match p.snapshot.find? child.path with
        | some node => crawl fs p out (depth + 1) node report
        | none => throw (.internal ("child module " ++ child.path ++ " not in snapshot")))
      report
termination_by p.maxDepth + 1 - depth

/-! ## Descent and walk -/

variable [LawfulMonad m]

/-- A loop over lists in a row is a loop of loops over the lists. -/
theorem foldlM_flatMap {α β γ : Type} {f : α → List β} {step : γ → β → m γ} {loop : γ → α → m γ}
    {xs : List α} (h : ∀ x ∈ xs, ∀ c, loop c x = (f x).foldlM step c) (c : γ) :
    xs.foldlM loop c = (xs.flatMap f).foldlM step c := by
  induction xs generalizing c with
  | nil => rfl
  | cons x xs ih =>
    rw [List.foldlM_cons, List.flatMap_cons, List.foldlM_append, h x List.mem_cons_self]
    have hrest := ih fun y hy => h y (List.mem_cons_of_mem x hy)
    exact bind_congr hrest

/-- Writing the pages of a walk one after the other, each with the report on those before. -/
theorem foldlM_writePage (fs : FileSystem m) (p : Project) (out : String) (report : Report)
    (walk : List Visit) :
    walk.foldlM (fun report v => writePage fs p out report v.module) report =
      (fun rest => ⟨report.written ++ rest.written, rest.diagnostics⟩) <$>
        writePages fs p out report.diagnostics walk := by
  induction walk generalizing report with
  | nil => simp [writePages]
  | cons v walk ih =>
    rw [List.foldlM_cons, writePage, writePages]
    simp only [ih, bind_assoc, pure_bind, map_eq_pure_bind, List.append_assoc,
      List.singleton_append]

/-- The descent writes the pages of a walk if all nodes are there and the walk stays above the
limit. -/
theorem crawl_eq_foldlM {s : Snapshot} (hs : s.Sound) (fs : FileSystem m) {p : Project}
    (hsnapshot : p.snapshot = s) (out : String) {depth : Nat} {n : Node} (hn : n ∈ s.nodes)
    (hdepth : ∀ v ∈ n.walkFrom Contents.isDocumentedPackage depth, v.depth ≤ p.maxDepth)
    (report : Report) :
    crawl fs p out depth n report =
      (n.walkFrom Contents.isDocumentedPackage depth).foldlM
        (fun report v => writePage fs p out report v.module) report := by
  induction n using Node.induct generalizing depth report with
  | mk i cs ih =>
    rw [Node.walkFrom_mk] at hdepth ⊢
    have htop : depth ≤ p.maxDepth := hdepth ⟨depth, .mk i cs⟩ List.mem_cons_self
    rw [crawl, dif_neg (by omega), List.foldlM_cons]
    refine bind_congr fun report => ?_
    have hchildren : (p.pageOf (.mk i cs)).value.children =
        (cs.filter Contents.isDocumentedPackage).map Project.childEntry := rfl
    rw [hchildren, List.foldlM_map]
    -- every listed package is found again, and the walk goes on there
    refine foldlM_flatMap (fun c hc report => ?_) report
    have hmem : c ∈ cs := (List.mem_filter.mp hc).1
    have hnode : c ∈ s.nodes := Node.mem_preorder_of_mem_children hn hmem
    have hfind : p.snapshot.find? (Project.childEntry c).path = some c := by
      rw [hsnapshot]
      exact hs.find?_path hnode
    rw [hfind]
    refine ih c hmem hnode (fun v hv => hdepth v ?_) report
    exact List.mem_cons_of_mem _ (List.mem_flatMap.mpr ⟨c, hc, hv⟩)

/-- A run with tables is a descent from the root. -/
theorem generate_eq_crawl {s : Snapshot} (hs : s.Sound) (fs : FileSystem m) {settings : Settings}
    {project : Noted Project} (h : Project.build s settings = .ok project) :
    generate fs s settings = crawl fs project.value settings.out 0 s.root
      ⟨[], Diagnostics.ofFindings project.findings⟩ := by
  have hbuilt := (Project.built_of_build h).1
  have hdepth : ∀ v ∈ s.pages, v.depth ≤ project.value.maxDepth := by
    intro v hv
    rw [hbuilt.maxDepth]
    exact Project.depth_le_of_build h hv
  have hroot : s.root ∈ s.nodes := Node.self_mem_preorder s.root
  rw [crawl_eq_foldlM hs fs hbuilt.snapshot settings.out hroot hdepth, foldlM_writePage, generate,
    h]
  simp only [List.nil_append]
  exact (id_map _).symm

end Programs

/-! ## Failures -/

section Failures

variable {σ α β : Type}

/-- The only failures of a program are those of file operations. -/
def FailsOnFiles (x : ExceptT Failure (StateM σ) α) : Prop :=
  ∀ st e st', x.run.run st = (.error e, st') → ∃ path cause, e = .file path cause

namespace FailsOnFiles

theorem pure (a : α) : FailsOnFiles (pure a : ExceptT Failure (StateM σ) α) := by
  intro st e st' h
  cases h

theorem lift (x : StateM σ α) : FailsOnFiles (liftM x : ExceptT Failure (StateM σ) α) := by
  intro st e st' h
  cases h

theorem attempt (path : String) (operation : StateM σ (Except FileFault α)) :
    FailsOnFiles (FileSystem.attempt path operation) := by
  intro st e st' h
  unfold FileSystem.attempt at h
  rw [ExceptT.run_mk, StateT.run_bind] at h
  generalize operation.run st = r at h
  obtain ⟨fault | a, st₁⟩ := r
  · cases h
    exact ⟨path, fault.message, rfl⟩
  · cases h

theorem bind {x : ExceptT Failure (StateM σ) α} {f : α → ExceptT Failure (StateM σ) β}
    (hx : FailsOnFiles x) (hf : ∀ a, FailsOnFiles (f a)) : FailsOnFiles (x >>= f) := by
  intro st e st' h
  rw [ExceptT.run_bind] at h
  simp only [StateT.run_bind] at h
  generalize hrun : x.run.run st = r at h
  obtain ⟨_ | a, st₁⟩ := r
  · cases h
    exact hx st e st₁ hrun
  · exact hf a st₁ e st' h

variable (fs : FileSystem (StateM σ))

theorem replaceFile (path text : String) : FailsOnFiles (fs.replaceFile path text) := by
  unfold FileSystem.replaceFile
  have hwrite : FailsOnFiles (FileSystem.attempt path (fs.writeText path text)) := attempt _ _
  refine bind (lift _) fun there => ?_
  cases UnixPath.parent path with
  | none =>
    cases there with
    | true => exact bind (attempt _ _) fun _ => hwrite
    | false => exact hwrite
  | some dir =>
    have hcreate : FailsOnFiles (do
        FileSystem.attempt dir (fs.createDirs dir)
        FileSystem.attempt path (fs.writeText path text)) := bind (attempt _ _) fun _ => hwrite
    cases there with
    | true => exact bind (attempt _ _) fun _ => hcreate
    | false => exact hcreate

theorem writePages (p : Project) (out : String) (d : Diagnostics) (walk : List Visit) :
    FailsOnFiles (writePages fs p out d walk) := by
  induction walk generalizing d with
  | nil => exact pure _
  | cons v walk ih => exact bind (replaceFile fs _ _) fun _ => bind (ih _) fun _ => pure _

/-- Once the tables are built, only file operations fail. -/
theorem generate {s : Snapshot} {settings : Settings} {project : Noted Project}
    (h : Project.build s settings = .ok project) : FailsOnFiles (generate fs s settings) := by
  rw [ApiPages.generate, h]
  exact writePages fs _ _ _ _

end FailsOnFiles

end Failures

/-! ## The depth limit of a run -/

/-- The depth limit of a run. Building the tables fails for depth exactly if the modules nest deeper
than the limit, and in no other way. The reported module lies one step below the limit and is the
first one there, of the documented packages if one of them is there and of all modules otherwise.
The run then ends without a file operation. If the tables are built, the run is the descent with its
checks, and it can only fail on a file. -/
theorem generate_guards_depth {d : Declaration} {s : Snapshot} (hload : Snapshot.load d = .ok s)
    (settings : Settings) :
    IsGreatest {k | ∃ n, s.root.Below Node.isModule k n} s.moduleDepth ∧
    ((∃ path limit, Project.build s settings = .error (.tooDeep path limit)) ↔
      settings.maxDepth < s.moduleDepth) ∧
    (∀ f, Project.build s settings = .error f →
      (∃ v, s.firstTooDeep? settings.maxDepth = some v ∧ v.depth = settings.maxDepth + 1 ∧
        f = .tooDeep v.module.path settings.maxDepth) ∧
      ∀ (m : Type → Type) [Monad m] (fs : FileSystem m), generate fs s settings = throw f) ∧
    ∀ project, Project.build s settings = .ok project →
      (∀ (m : Type → Type) [Monad m] [LawfulMonad m] (fs : FileSystem m),
        generate fs s settings = crawl fs project.value settings.out 0 s.root
          ⟨[], Diagnostics.ofFindings project.findings⟩) ∧
      ∀ (σ : Type) (fs : FileSystem (StateM σ)), FailsOnFiles (generate fs s settings) := by
  have hs := Snapshot.Sound.of_load hload
  refine ⟨s.isGreatest_moduleDepth, ?_, ?_, ?_⟩
  · rw [← Snapshot.isSome_firstTooDeep?_iff, Option.isSome_iff_exists]
    constructor
    · rintro ⟨path, limit, h⟩
      obtain ⟨v, hv, -⟩ := Project.build_eq_error_iff.mp h
      exact ⟨v, hv⟩
    · rintro ⟨v, hv⟩
      exact ⟨_, _, Project.build_eq_error_iff.mpr ⟨v, hv, rfl⟩⟩
  · intro f h
    constructor
    · obtain ⟨v, hv, hf⟩ := Project.build_eq_error_iff.mp h
      exact ⟨v, hv, Snapshot.depth_of_firstTooDeep? hv, hf⟩
    · intro m _ fs
      rw [generate, h]
  · intro project h
    constructor
    · intro m _ _ fs
      exact generate_eq_crawl hs fs h
    · intro σ fs
      exact FailsOnFiles.generate fs h

/-- A package with a file and, after it, a documented package. -/
def fileAndPackage : Declaration :=
  .mk { DeclFields.named .module "p" with
      filepath := some "p/__init__.py", docstring := some "Root." }
    [.mk { DeclFields.named .module "m" with filepath := some "p/m.py" } [],
      .mk { DeclFields.named .module "q" with
        filepath := some "p/q/__init__.py", docstring := some "Inner." } []]

/-- Settings with a depth limit and no links. -/
def settingsWithLimit (limit : Nat) : Settings := ⟨"/api", "out", ∅, false, limit⟩

/-- With limit 0 the inner package is reported, although the file comes first, and no file is
touched. With limit 1 the run is a descent that can only fail on a file. -/
theorem fileAndPackage_guarded :
    ∃ s, Snapshot.load fileAndPackage = .ok s ∧ s.moduleDepth = 1 ∧
      generate Store.fileSystem s (settingsWithLimit 0) = throw (Failure.tooDeep "p.q" 0) ∧
      ∃ project, Project.build s (settingsWithLimit 1) = .ok project ∧
        generate Store.fileSystem s (settingsWithLimit 1) =
          crawl Store.fileSystem project.value "out" 0 s.root
            ⟨[], Diagnostics.ofFindings project.findings⟩ ∧
        FailsOnFiles (generate Store.fileSystem s (settingsWithLimit 1)) := by
  refine ⟨⟨Node.ofDeclaration fileAndPackage⟩, rfl, by decide +kernel, ?_, ?_⟩
  · have h := generate_guards_depth (d := fileAndPackage) rfl (settingsWithLimit 0)
    obtain ⟨path, limit, hbuild⟩ := h.2.1.mpr (by decide +kernel)
    obtain ⟨⟨v, hv, -, hf⟩, hgenerate⟩ := h.2.2.1 _ hbuild
    rw [hgenerate, hf]
    cases hv
    rfl
  · have h := generate_guards_depth (d := fileAndPackage) rfl (settingsWithLimit 1)
    obtain ⟨hcrawl, hfiles⟩ := h.2.2.2 _ rfl
    exact ⟨_, rfl, hcrawl _ _, hfiles _ _⟩

end ApiPages
