import ApiPages.Proofs.DepthGuard
import ApiPages.Proofs.PathComponents
import ApiPages.Proofs.RunDiagnostics
import ApiPages.Proofs.Stores

/-!
# Where pages are written

The file of a page is found by pushing the segments of the path of its module on the output
directory and setting the extension of what comes out. A segment without slashes adds one component,
and a segment that starts with a slash throws away everything before it. So pages lie below the
output directory as long as no name starts with a slash, and pages of different modules do not get
in each other's way as long as no name has a slash.

Results:

* `components_pagePath`: the components of the file of a page.
* `isAbsolute_pagePath`: a segment that starts with a slash takes a page out of every directory.
* `pagePath_apart`: files of different pages neither are the same nor lie below one another.
* `written_of_generate`: the files that a run writes.
* `read_of_writePages`: pages at different places can all be read after they were written.
* `generate_stays_below`, `generate_keeps_apart`: what this means for a run.
-/

namespace ApiPages

/-! ## Names in paths -/

namespace UnixPath

/-- The path adds names to that of the directory, at least one and nothing but names. -/
def LiesBelow (dir path : String) : Prop :=
  ∃ ns : List (List Char), ns ≠ [] ∧ components path = components dir ++ ns.map .normal

/-- The paths are not the same and neither leads through the other. -/
def Apart (a b : String) : Prop :=
  ¬ components a <+: components b ∧ ¬ components b <+: components a

theorem Apart.ne {a b : String} (h : Apart a b) : a ≠ b := by
  rintro rfl
  exact h.1 List.prefix_rfl

theorem names_of_slash_not_mem {name : String} (hne : name ≠ "") (hslash : '/' ∉ name.toList) :
    names name = [name.toList] := by
  rw [names, Text.splitOn_of_not_mem hslash]
  simp [hne]

/-- A relative path that is not empty has a name. -/
theorem names_ne_nil {path : String} (h : isAbsolute path = false) (hne : path ≠ "") :
    names path ≠ [] := by
  intro hnames
  obtain ⟨first, rest, hsplit⟩ :=
    List.exists_cons_of_ne_nil (Text.splitOn_ne_nil '/' path.toList)
  have hfirst : first = [] := by
    rw [names, List.filter_eq_nil_iff] at hnames
    simpa using hnames first (by rw [hsplit]; exact List.mem_cons_self)
  have hrest : rest = [] := by
    apply eq_nil_of_segments h
    rw [segments_of_not_isAbsolute h, hsplit, hfirst]
  have htext := Text.joinWith_splitOn '/' path.toList
  rw [hsplit, hfirst, hrest] at htext
  exact hne (String.toList_eq_nil_iff.mp htext.symm)

theorem mem_of_mem_names {path : String} {name : List Char} {c : Char} (hn : name ∈ names path)
    (hc : c ∈ name) : c ∈ path.toList :=
  Text.mem_of_mem_splitOn (List.mem_filter.mp hn).1 hc

/-- Relative paths without dots add their names one after the other. -/
theorem components_foldl_push (out : String) {extras : List String}
    (h : ∀ e ∈ extras, isAbsolute e = false) (hdot : ∀ e ∈ extras, '.' ∉ e.toList) :
    components (extras.foldl push out) =
      components out ++ (extras.flatMap names).map .normal := by
  induction extras generalizing out with
  | nil => simp
  | cons e extras ih =>
    rw [List.foldl_cons, ih _ (fun x hx => h x (List.mem_cons_of_mem e hx))
      (fun x hx => hdot x (List.mem_cons_of_mem e hx)),
      components_push out (h e List.mem_cons_self) (hdot e List.mem_cons_self)]
    simp

theorem isAbsolute_push {path extra : String}
    (h : isAbsolute path = true ∨ isAbsolute extra = true) :
    isAbsolute (push path extra) = true := by
  rw [push]
  split
  · assumption
  · next hextra =>
    have hpath : path.toList.head? = some '/' := by
      simpa [isAbsolute] using h.resolve_right hextra
    split <;> simp [isAbsolute, List.head?_append, hpath]

/-- A path that starts at the root replaces what it is pushed on. -/
theorem isAbsolute_foldl_push {out : String} {extras : List String}
    (h : isAbsolute out = true ∨ ∃ e ∈ extras, isAbsolute e = true) :
    isAbsolute (extras.foldl push out) = true := by
  induction extras generalizing out with
  | nil => simpa using h
  | cons e extras ih =>
    rw [List.foldl_cons]
    apply ih
    rcases h with hout | ⟨x, hx, habsolute⟩
    · exact Or.inl (isAbsolute_push (Or.inl hout))
    · rcases List.mem_cons.mp hx with rfl | hx
      · exact Or.inl (isAbsolute_push (Or.inr habsolute))
      · exact Or.inr ⟨x, hx, habsolute⟩

theorem isAbsolute_setExtension {path : String} (h : isAbsolute path = true) (ext : String) :
    isAbsolute (setExtension path ext) = true := by
  rw [setExtension]
  split
  · exact h
  · simp only [ofSegments, h, if_true]
    simp [isAbsolute]

theorem head?_components {path : String} (h : isAbsolute path = true) :
    (components path).head? = some .root := by
  rw [components_eq, h]
  rfl

end UnixPath

namespace DottedPath

theorem segments_child (a b : String) : segments (child a b) = segments a ++ segments b := by
  rw [segments, Text.splitString, toList_child, Text.splitOn_append, List.map_append]
  rfl

theorem dot_not_mem_of_mem_segments {path e : String} (h : e ∈ segments path) :
    '.' ∉ e.toList := by
  obtain ⟨p, hp, rfl⟩ := List.mem_map.mp h
  rw [String.toList_ofList]
  exact Text.sep_not_mem_of_mem_splitOn hp

theorem segments_inj {p q : String} (h : segments p = segments q) : p = q := by
  have hsplit : Text.splitOn '.' p.toList = Text.splitOn '.' q.toList := by
    have hmap := congrArg (List.map String.toList) h
    simpa [segments, Text.splitString, Function.comp_def] using hmap
  rw [← String.toList_inj, ← Text.joinWith_splitOn '.' p.toList, hsplit, Text.joinWith_splitOn]

end DottedPath

open DottedPath (segments)
open UnixPath (components isAbsolute names LiesBelow Apart)

/-! ## Files of pages -/

/-- The names in the segments of a path are directories, and the last one is the file. -/
theorem components_pagePath (out : String) {path : String} {ns : List (List Char)} {n : List Char}
    (h : ∀ e ∈ segments path, isAbsolute e = false)
    (hnames : (segments path).flatMap names = ns ++ [n]) :
    components (pagePath out path) =
      components out ++ (ns ++ [n ++ ".json".toList]).map .normal := by
  have hdot : '.' ∉ n := by
    have hmem : n ∈ (segments path).flatMap names := by simp [hnames]
    obtain ⟨e, he, hn⟩ := List.mem_flatMap.mp hmem
    exact fun hc => DottedPath.dot_not_mem_of_mem_segments he (UnixPath.mem_of_mem_names hn hc)
  have hpush := UnixPath.components_foldl_push out h
    fun e he => DottedPath.dot_not_mem_of_mem_segments he
  rw [hnames, List.map_append, ← List.append_assoc] at hpush
  have hfile : UnixPath.fileName ((segments path).foldl UnixPath.push out) = some n := by
    rw [UnixPath.fileName_eq_some_iff, hpush]
    simp
  obtain ⟨cs, hcs, hext⟩ :=
    UnixPath.components_setExtension "json" hfile (by decide) (by decide) (by decide)
  obtain rfl : cs = components out ++ ns.map .normal :=
    (List.append_inj' (hcs.symm.trans hpush) rfl).1
  have hstem : UnixPath.stem n = n := by
    rw [UnixPath.stem, Text.splitLast_of_not_mem hdot]
  rw [pagePath, hext, hstem]
  simp

theorem isAbsolute_pagePath (out : String) {path : String}
    (h : ∃ e ∈ segments path, isAbsolute e = true) : isAbsolute (pagePath out path) = true :=
  UnixPath.isAbsolute_setExtension (UnixPath.isAbsolute_foldl_push (Or.inr h)) "json"

/-- The path has nothing but names without slashes for segments. -/
def DottedPath.Plain (path : String) : Prop :=
  ∀ e ∈ segments path, e ≠ "" ∧ '/' ∉ e.toList

/-- The segments of a plain path are directories, and the last one is the file. -/
theorem components_pagePath_of_plain (out : String) {path : String} (h : DottedPath.Plain path) :
    ∃ ns n, (segments path).map String.toList = ns ++ [n] ∧
      components (pagePath out path) =
        components out ++ (ns ++ [n ++ ".json".toList]).map .normal := by
  have hne : (segments path).map String.toList ≠ [] := by
    simpa [segments, Text.splitString] using Text.splitOn_ne_nil '.' path.toList
  obtain ⟨ns, n, hlast⟩ := (List.eq_nil_or_concat' _).resolve_left hne
  refine ⟨ns, n, hlast, components_pagePath out ?_ ?_⟩
  · intro e he
    obtain ⟨-, hslash⟩ := h e he
    rw [isAbsolute, beq_eq_false_iff_ne]
    exact fun hhead => hslash (List.mem_of_mem_head? hhead)
  · have hnames : ∀ e ∈ segments path, names e = [e.toList] := by
      intro e he
      exact UnixPath.names_of_slash_not_mem (h e he).1 (h e he).2
    rw [List.flatMap_congr hnames, ← hlast, List.map_eq_flatMap]

theorem liesBelow_pagePath_of_plain (out : String) {path : String} (h : DottedPath.Plain path) :
    LiesBelow out (pagePath out path) := by
  obtain ⟨ns, n, -, hcomponents⟩ := components_pagePath_of_plain out h
  exact ⟨ns ++ [n ++ ".json".toList], by simp, hcomponents⟩

/-- The file of one path is not the file of another, and not a directory above it. -/
theorem not_isPrefix_pagePath (out : String) {p q : String} (hne : p ≠ q)
    (hp : DottedPath.Plain p) (hq : DottedPath.Plain q) :
    ¬ components (pagePath out p) <+: components (pagePath out q) := by
  intro hprefix
  obtain ⟨ns, n, hns, hcomponents⟩ := components_pagePath_of_plain out hp
  obtain ⟨ms, m, hms, hcomponents'⟩ := components_pagePath_of_plain out hq
  rw [hcomponents, hcomponents', List.prefix_append_right_inj,
    List.prefix_map_iff_of_injective fun _ _ => UnixPath.Component.normal.inj] at hprefix
  rcases List.prefix_concat_iff.mp hprefix with heq | hdir
  · obtain ⟨rfl, hlast⟩ := List.append_inj' heq rfl
    obtain rfl : n = m := by simpa using hlast
    have htoList : Function.Injective String.toList := fun _ _ => String.toList_inj.mp
    have hsegments := List.map_injective_iff.mpr htoList (hns.trans hms.symm)
    exact hne (DottedPath.segments_inj hsegments)
  · -- the file has a dot and the directories have none
    have hmem : n ++ ".json".toList ∈ (segments q).map String.toList := by
      rw [hms]
      exact List.mem_append_left _ (hdir.subset (by simp))
    obtain ⟨e, he, hfile⟩ := List.mem_map.mp hmem
    apply DottedPath.dot_not_mem_of_mem_segments he
    rw [hfile]
    simp

theorem pagePath_apart (out : String) {p q : String} (hne : p ≠ q) (hp : DottedPath.Plain p)
    (hq : DottedPath.Plain q) : Apart (pagePath out p) (pagePath out q) :=
  ⟨not_isPrefix_pagePath out hne hp hq, not_isPrefix_pagePath out hne.symm hq hp⟩

/-- Different names below a directory lead to different places. -/
theorem placeOf_ne {a b dir : String} (st : Store) (ha : LiesBelow dir a) (hb : LiesBelow dir b)
    (h : Apart a b) : st.placeOf a ≠ st.placeOf b := by
  obtain ⟨ns, -, hns⟩ := ha
  obtain ⟨ms, -, hms⟩ := hb
  intro heq
  rw [Store.placeOf_of_components hns, Store.placeOf_of_components hms,
    List.append_cancel_left_eq] at heq
  have hofList : Function.Injective String.ofList := fun _ _ => String.ofList_inj.mp
  have hnames : ns = ms := List.map_injective_iff.mpr hofList heq
  have hsame : components a = components b := by rw [hns, hms, hnames]
  exact h.1 (hsame ▸ List.prefix_rfl)

/-! ## Paths of modules -/

theorem Snapshot.mem_map_module_pages_iff {s : Snapshot} {m : Node} :
    m ∈ s.pages.map Visit.module ↔ ∃ k, s.root.Below Contents.isDocumentedPackage k m := by
  simp only [List.mem_map, pages, Node.mem_walkFrom_iff]
  constructor
  · rintro ⟨v, ⟨k, hv, -⟩, rfl⟩
    exact ⟨k, hv⟩
  · rintro ⟨k, hm⟩
    exact ⟨⟨k, m⟩, ⟨k, hm, by simp⟩, rfl⟩

namespace Snapshot.Sound

variable {s : Snapshot}

/-- The last segment of the path of a module is its name. -/
theorem exists_segments_path_eq (hs : s.Sound) {m : Node} (hm : m ∈ s.nodes)
    (hmodule : m.isModule = true) : ∃ es, segments m.path = es ++ [m.name] := by
  have hname := hs.segments_name hm hmodule
  rcases Node.exists_parent_of_mem_preorder hm with rfl | ⟨p, hp, hchild⟩
  · exact ⟨[], by rw [hs.root_path, Snapshot.rootName, hname, List.nil_append]⟩
  · exact ⟨segments p.path, by rw [hs.child_path p hp m hchild, DottedPath.segments_child, hname]⟩

/-- The segments of the path of a module with a page are names of such modules. -/
theorem exists_page_of_mem_segments (hs : s.Sound) {v : Visit} (hv : v ∈ s.pages) {e : String}
    (he : e ∈ segments v.module.path) : ∃ w ∈ s.pages, w.module.name = e := by
  obtain ⟨k, hbelow, -⟩ := Node.mem_walkFrom_iff.mp hv
  generalize v.module = m at hbelow he
  induction hbelow with
  | self =>
    rw [hs.root_path, Snapshot.rootName, hs.segments_name s.root_mem_nodes hs.root_isModule,
      List.mem_singleton] at he
    exact ⟨⟨0, s.root⟩, Snapshot.root_mem_pages s, he.symm⟩
  | @step k n c h hc hkeep ih =>
    have hn : n ∈ s.nodes := h.mem_preorder
    rw [hs.child_path n hn c hc, DottedPath.segments_child, List.mem_append,
      hs.segments_name (Snapshot.child_mem_nodes hn hc)
        (Node.isModule_of_isDocumentedPackage hkeep), List.mem_singleton] at he
    rcases he with he | rfl
    · exact ih he
    · exact ⟨⟨k + 1, c⟩, Node.mem_walkFrom_iff.mpr ⟨k + 1, .step h hc hkeep, by simp⟩, rfl⟩

/-- The page of a module lies below the output directory if no segment starts with a slash. -/
theorem liesBelow_pagePath (hs : s.Sound) {m : Node} (hm : m ∈ s.nodes)
    (hmodule : m.isModule = true) (h : ∀ e ∈ segments m.path, isAbsolute e = false)
    (out : String) : LiesBelow out (pagePath out m.path) := by
  obtain ⟨es, hes⟩ := hs.exists_segments_path_eq hm hmodule
  -- the name of the module is among the segments and is not empty
  have hname : names m.name ≠ [] :=
    UnixPath.names_ne_nil (h m.name (by simp [hes])) (hs.name_ne_empty hm)
  obtain ⟨ns, n, hlast⟩ := (List.eq_nil_or_concat' _).resolve_left hname
  have hnames : (segments m.path).flatMap names = (es.flatMap names ++ ns) ++ [n] := by
    rw [hes, List.flatMap_append, List.append_assoc, ← hlast]
    simp
  exact ⟨_, by simp, components_pagePath out h hnames⟩

section Slashless

variable (hs : s.Sound) (hslash : ∀ m ∈ s.nodes, m.isModule = true → '/' ∉ m.name.toList)

include hs hslash

theorem plain_of_mem_pages {v : Visit} (hv : v ∈ s.pages) : DottedPath.Plain v.module.path := by
  intro e he
  obtain ⟨w, hw, rfl⟩ := hs.exists_page_of_mem_segments hv he
  obtain ⟨hnode, hmodule⟩ := Snapshot.module_of_mem_pages hs hw
  exact ⟨hs.name_ne_empty hnode, hslash w.module hnode hmodule⟩

/-- The pages of a snapshot do not get in each other's way. -/
theorem pages_apart (out : String) : s.pages.Pairwise fun v w =>
    Apart (pagePath out v.module.path) (pagePath out w.module.path) := by
  refine (List.pairwise_map.mp hs.pages_nodup).imp_of_mem ?_
  intro v w hv hw hne
  have hpath : v.module.path ≠ w.module.path := by
    intro heq
    exact hne (hs.eq_of_path (Snapshot.module_of_mem_pages hs hv).1
      (Snapshot.module_of_mem_pages hs hw).1 heq)
  exact pagePath_apart out hpath (hs.plain_of_mem_pages hslash hv)
    (hs.plain_of_mem_pages hslash hw)

theorem places_nodup (out : String) (st : Store) :
    (s.pages.map fun v => st.placeOf (pagePath out v.module.path)).Nodup := by
  rw [List.Nodup, List.pairwise_map]
  refine (hs.pages_apart hslash out).imp_of_mem ?_
  intro v w hv hw hapart
  exact placeOf_ne st (liesBelow_pagePath_of_plain out (hs.plain_of_mem_pages hslash hv))
    (liesBelow_pagePath_of_plain out (hs.plain_of_mem_pages hslash hw)) hapart

end Slashless

end Snapshot.Sound

/-! ## Files of a run -/

section Running

variable {σ : Type} {p : Project} {out : String} {d : Diagnostics} {walk : List Visit}
  {report : Report}

theorem written_of_writePages (fs : FileSystem (StateM σ)) {st st' : σ}
    (h : (writePages fs p out d walk).run.run st = (.ok report, st')) :
    report.written = walk.map fun v => pagePath out v.module.path := by
  induction walk generalizing d st report with
  | nil =>
    cases h
    rfl
  | cons v walk ih =>
    rw [writePages] at h
    obtain ⟨_, st₁, -, h⟩ := exists_of_run_bind_eq_ok h
    obtain ⟨rest, st₂, hrest, h⟩ := exists_of_run_bind_eq_ok h
    cases h
    rw [ih hrest, List.map_cons]

/-- A run that succeeds has written the page of every module of the walk. -/
theorem written_of_generate (fs : FileSystem (StateM σ)) {st st' : σ} {s : Snapshot}
    {settings : Settings} (h : (generate fs s settings).run.run st = (.ok report, st')) :
    report.written = s.pages.map fun v => pagePath settings.out v.module.path := by
  unfold generate at h
  split at h
  · cases h
  · exact written_of_writePages fs h

variable {st st' : Store}

/-- Writing pages leaves all other files as they are. -/
theorem keeps_of_writePages
    (h : (writePages Store.fileSystem p out d walk).run.run st = (.ok report, st')) :
    Store.Keeps (walk.map fun v => st.placeOf (pagePath out v.module.path)) st st' := by
  induction walk generalizing d st report with
  | nil =>
    cases h
    exact .refl _
  | cons v walk ih =>
    rw [writePages] at h
    obtain ⟨_, st₁, hfile, h⟩ := exists_of_run_bind_eq_ok h
    obtain ⟨rest, st₂, hrest, h⟩ := exists_of_run_bind_eq_ok h
    cases h
    have hfirst := Store.keeps_of_replaceFile hfile
    have hkeeps := ih hrest
    simp only [hfirst.placeOf] at hkeeps
    exact hfirst.trans hkeeps

/-- Pages at different places all can be read afterwards. -/
theorem read_of_writePages
    (h : (writePages Store.fileSystem p out d walk).run.run st = (.ok report, st'))
    (hplaces : (walk.map fun v => st.placeOf (pagePath out v.module.path)).Nodup) {v : Visit}
    (hv : v ∈ walk) :
    st'.read (pagePath out v.module.path) = .ok ((p.pageOf v.module).value.toJson.pretty 4) := by
  induction walk generalizing d st report with
  | nil => cases hv
  | cons w walk ih =>
    rw [writePages] at h
    obtain ⟨_, st₁, hfile, h⟩ := exists_of_run_bind_eq_ok h
    obtain ⟨rest, st₂, hrest, h⟩ := exists_of_run_bind_eq_ok h
    cases h
    have hfirst := Store.keeps_of_replaceFile hfile
    rw [List.map_cons, List.nodup_cons] at hplaces
    simp only [← hfirst.placeOf] at hplaces
    rcases List.mem_cons.mp hv with rfl | hv
    · -- the pages that follow are written elsewhere
      exact (keeps_of_writePages hrest).read hplaces.1 (Store.read_of_replaceFile hfile)
    · exact ih hrest hplaces.2 hv

end Running

/-! ## Pages and the output directory -/

theorem UnixPath.LiesBelow.isPrefix {dir path : String} (h : LiesBelow dir path) :
    components dir <+: components path := by
  obtain ⟨ns, -, hns⟩ := h
  exact ⟨_, hns.symm⟩

/-- Settings with an output directory and no links. -/
def settingsInto (out : String) : Settings := ⟨"/api", out, ∅, false, 10⟩

/-- Pages and the output directory. The page of a module lies below every output directory exactly
if no segment of the path of the module starts with a slash. So if no name of a module with a page
starts with a slash, a run that succeeds has written only files below its output directory. -/
theorem generate_stays_below {d : Declaration} {s : Snapshot} (hload : Snapshot.load d = .ok s) :
    (∀ m ∈ s.nodes, m.isModule = true →
      ((∀ out, components out <+: components (pagePath out m.path)) ↔
        ∀ e ∈ segments m.path, isAbsolute e = false)) ∧
    ∀ (σ : Type) (fs : FileSystem (StateM σ)) (st st' : σ) (settings : Settings) (report : Report),
      (generate fs s settings).run.run st = (.ok report, st') →
      (∀ v ∈ s.pages, isAbsolute v.module.name = false) →
      ∀ file ∈ report.written, LiesBelow settings.out file := by
  have hs := Snapshot.Sound.of_load hload
  constructor
  · intro m hm hmodule
    constructor
    · intro hprefix e he
      by_contra habsolute
      rw [Bool.not_eq_false] at habsolute
      have hroot := UnixPath.head?_components (isAbsolute_pagePath "out" ⟨e, he, habsolute⟩)
      obtain ⟨rest, hrest⟩ := hprefix "out"
      have hout : components "out" = [.normal "out".toList] := by decide
      rw [← hrest, hout] at hroot
      cases hroot
    · intro h out
      exact (hs.liesBelow_pagePath hm hmodule h out).isPrefix
  · intro σ fs st st' settings report hrun hnames file hfile
    rw [written_of_generate fs hrun, List.mem_map] at hfile
    obtain ⟨v, hv, rfl⟩ := hfile
    obtain ⟨hnode, hmodule⟩ := Snapshot.module_of_mem_pages hs hv
    refine hs.liesBelow_pagePath hnode hmodule ?_ settings.out
    intro e he
    obtain ⟨w, hw, rfl⟩ := hs.exists_page_of_mem_segments hv he
    exact hnames w hw

/-- A package with a documented package that has slashes in its name. -/
def packageWithSlashes : Declaration :=
  .mk { DeclFields.named .module "p" with
      filepath := some "p/__init__.py", docstring := some "Root." }
    [.mk { DeclFields.named .module "a/b/" with
      filepath := some "p/a/__init__.py", docstring := some "Inner." } []]

/-- Slashes inside a name and at its end lead deeper below the output directory. -/
theorem packageWithSlashes_stays_below :
    ∃ s, Snapshot.load packageWithSlashes = .ok s ∧
      ∃ report st', (generate Store.fileSystem s (settingsInto "../out")).run.run Store.empty =
          (.ok report, st') ∧
        report.written = ["../out/p.json", "../out/p/a/b.json"] ∧
        ∀ file ∈ report.written, LiesBelow "../out" file := by
  refine ⟨⟨Node.ofDeclaration packageWithSlashes⟩, rfl, ?_⟩
  have hok : ((generate Store.fileSystem ⟨Node.ofDeclaration packageWithSlashes⟩
      (settingsInto "../out")).run.run Store.empty).1.isOk = true := by
    decide +kernel
  obtain ⟨report, st', hrun⟩ := exists_run_eq_of_isOk hok
  refine ⟨report, st', hrun, ?_, ?_⟩
  · rw [written_of_generate _ hrun]
    decide +kernel
  · exact (generate_stays_below (d := packageWithSlashes) rfl).2 _ _ _ _ _ _ hrun
      (by decide +kernel)

/-- A package whose name starts with a slash. -/
def rootedPackage : Declaration :=
  .mk { DeclFields.named .module "/srv/pages" with
      filepath := some "pages/__init__.py", docstring := some "Root." } []

/-- The name is accepted, and the page of the package is written outside of the output directory. -/
theorem rootedPackage_leaves_output :
    ∃ s, Snapshot.load rootedPackage = .ok s ∧ s.root ∈ s.nodes ∧ s.root.isModule = true ∧
      ¬ components "out" <+: components (pagePath "out" s.root.path) ∧
      ∃ report st', (generate Store.fileSystem s (settingsInto "out")).run.run Store.empty =
        (.ok report, st') ∧ report.written = ["/srv/pages.json"] := by
  refine ⟨⟨Node.ofDeclaration rootedPackage⟩, rfl, Snapshot.root_mem_nodes _, rfl,
    by decide +kernel, ?_⟩
  have hok : ((generate Store.fileSystem ⟨Node.ofDeclaration rootedPackage⟩
      (settingsInto "out")).run.run Store.empty).1.isOk = true := by
    decide +kernel
  obtain ⟨report, st', hrun⟩ := exists_run_eq_of_isOk hok
  refine ⟨report, st', hrun, ?_⟩
  rw [written_of_generate _ hrun]
  decide +kernel

/-! ## Pages of one run -/

/-- Pages of one run. The files of different plain paths are different, and neither lies below the
other. So if no name of a module has a slash, a run that succeeds writes one file for the root and
each documented package reached through documented packages, in the order of declaration, no file
twice and none below another. In a store every file then has the text of its own page. -/
theorem generate_keeps_apart :
    (∀ out p q : String, p ≠ q → DottedPath.Plain p → DottedPath.Plain q →
      Apart (pagePath out p) (pagePath out q)) ∧
    ∀ (d : Declaration) (s : Snapshot), Snapshot.load d = .ok s →
      (∀ m ∈ s.nodes, m.isModule = true → '/' ∉ m.name.toList) →
      ∀ settings : Settings,
        (∀ (σ : Type) (fs : FileSystem (StateM σ)) (st st' : σ) (report : Report),
          (generate fs s settings).run.run st = (.ok report, st') →
          ∃ modules : List Node, modules.Sublist s.nodes ∧
            (∀ m, m ∈ modules ↔ ∃ k, s.root.Below Contents.isDocumentedPackage k m) ∧
            report.written = modules.map (fun m => pagePath settings.out m.path) ∧
            report.written.Nodup ∧ report.written.Pairwise Apart) ∧
        ∀ (st st' : Store) (report : Report),
          (generate Store.fileSystem s settings).run.run st = (.ok report, st') →
          ∃ project, Project.build s settings = .ok project ∧
            ∀ v ∈ s.pages, st'.read (pagePath settings.out v.module.path) =
              .ok ((project.value.pageOf v.module).value.toJson.pretty 4) := by
  refine ⟨fun out p q => pagePath_apart out, ?_⟩
  intro d s hload hslash settings
  have hs := Snapshot.Sound.of_load hload
  constructor
  · intro σ fs st st' report hrun
    have hwritten := written_of_generate fs hrun
    have hapart : report.written.Pairwise Apart := by
      rw [hwritten, List.pairwise_map]
      exact hs.pages_apart hslash settings.out
    refine ⟨s.pages.map Visit.module, Node.map_module_walkFrom_sublist _ _ _, ?_, ?_, ?_, ?_⟩
    · intro m
      exact Snapshot.mem_map_module_pages_iff
    · rw [hwritten, List.map_map]
      rfl
    · exact hapart.imp fun h => h.ne
    · exact hapart
  · intro st st' report hrun
    unfold generate at hrun
    split at hrun
    · cases hrun
    · next project hbuild =>
      refine ⟨project, hbuild, fun v hv => ?_⟩
      exact read_of_writePages hrun (hs.places_nodup hslash settings.out st) hv

/-- A package with a package in it that has a package of the first one's name. -/
def nestedNamesakes : Declaration :=
  .mk { DeclFields.named .module "p" with
      filepath := some "p/__init__.py", docstring := some "Root." }
    [.mk { DeclFields.named .module "q" with
        filepath := some "p/q/__init__.py", docstring := some "Inner." }
      [.mk { DeclFields.named .module "p" with
        filepath := some "p/q/p/__init__.py", docstring := some "Innermost." } []],
      .mk { DeclFields.named .module "m" with filepath := some "p/m.py" } []]

/-- Three pages, one below the other, are written to three files, and all can be read. -/
theorem nestedNamesakes_kept_apart :
    ∃ s, Snapshot.load nestedNamesakes = .ok s ∧
      (∀ m ∈ s.nodes, m.isModule = true → '/' ∉ m.name.toList) ∧
      ∃ report st', (generate Store.fileSystem s (settingsInto "out")).run.run Store.empty =
          (.ok report, st') ∧
        report.written = ["out/p.json", "out/p/q.json", "out/p/q/p.json"] ∧
        report.written.Nodup ∧ report.written.Pairwise Apart ∧
        ∃ project, Project.build s (settingsInto "out") = .ok project ∧
          ∀ v ∈ s.pages, st'.read (pagePath "out" v.module.path) =
            .ok ((project.value.pageOf v.module).value.toJson.pretty 4) := by
  have hslash : ∀ m ∈ Snapshot.nodes ⟨Node.ofDeclaration nestedNamesakes⟩,
      m.isModule = true → '/' ∉ m.name.toList := by
    decide +kernel
  refine ⟨⟨Node.ofDeclaration nestedNamesakes⟩, rfl, hslash, ?_⟩
  have hok : ((generate Store.fileSystem ⟨Node.ofDeclaration nestedNamesakes⟩
      (settingsInto "out")).run.run Store.empty).1.isOk = true := by
    decide +kernel
  obtain ⟨report, st', hrun⟩ := exists_run_eq_of_isOk hok
  obtain ⟨hall, hstore⟩ := generate_keeps_apart.2 nestedNamesakes _ rfl hslash (settingsInto "out")
  obtain ⟨_, -, -, -, hnodup, hapart⟩ := hall _ _ _ _ _ hrun
  refine ⟨report, st', hrun, ?_, hnodup, hapart, hstore _ _ _ hrun⟩
  rw [written_of_generate _ hrun]
  decide +kernel

end ApiPages
