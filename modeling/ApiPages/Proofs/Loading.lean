import ApiPages.Proofs.Tree

/-!
# What loading accepts

A declaration is placed by the declarations around it: they give it its canonical path and, if it
names no file itself, its file. Loading accepts a tree exactly if its top is a module, its names are
fit and no two placements have the same path; otherwise it reports the first placement in pre-order
that is at fault.

Results:

* `Snapshot.map_info_preorder`: the nodes of a loaded tree are the placements of its declarations.
* `Snapshot.firstFault_eq_none_iff`, `Snapshot.exists_of_firstFault_eq_some`: when a fault is found,
  and which one.
* `Snapshot.load_eq_ok_iff`, `Snapshot.exists_of_load_eq_error`: the outcomes of loading.
* `Snapshot.Sound.of_load`: what the rest of the theory uses of a loaded snapshot.
-/

namespace ApiPages

/-! ## Placements -/

/-- A declaration of a tree and the declarations around it, the closest one first. -/
structure Placement where
  fields : DeclFields
  above : List DeclFields

namespace Placement

/-- The path of a declaration inside others: the outermost name, then one segment a level. -/
def pathIn (f : DeclFields) : List DeclFields → String
  | [] => f.name
  | g :: above => DottedPath.child (pathIn g above) f.name

/-- The canonical path of a declaration. -/
def path (p : Placement) : String := pathIn p.fields p.above

/-- The file of a declaration: its own, or that of the closest one around it that names one. -/
def file (p : Placement) : Option String := (p.fields :: p.above).findSome? DeclFields.filepath

/-- The data of the node of a declaration. -/
def info (p : Placement) : NodeInfo := Node.infoOf p.path p.file p.fields

/-- The name is fit: it is not empty, and it has no dot unless it is that of a re-export. -/
def NameFits (p : Placement) : Prop :=
  p.fields.name ≠ "" ∧ ('.' ∈ p.fields.name.toList → p.fields.kind = .reexport)

end Placement

namespace Declaration

mutual

/-- The placements of a declaration and of those in it, in pre-order. -/
def placementsIn (above : List DeclFields) : Declaration → List Placement
  | .mk f ms => ⟨f, above⟩ :: placementsOfAll (f :: above) ms

/-- The placements of several declarations. -/
def placementsOfAll (above : List DeclFields) : List Declaration → List Placement
  | [] => []
  | m :: ms => m.placementsIn above ++ placementsOfAll above ms

end

/-- The placements of the declarations of a tree, in pre-order. -/
def placements (d : Declaration) : List Placement := d.placementsIn []

theorem placementsOfAll_eq (above : List DeclFields) (ms : List Declaration) :
    placementsOfAll above ms = ms.flatMap (placementsIn above) := by
  induction ms with
  | nil => rfl
  | cons m ms ih => rw [placementsOfAll, ih, List.flatMap_cons]

theorem placementsIn_mk (above : List DeclFields) (f : DeclFields) (ms : List Declaration) :
    placementsIn above (.mk f ms) = ⟨f, above⟩ :: ms.flatMap (placementsIn (f :: above)) := by
  rw [placementsIn, placementsOfAll_eq]

end Declaration

theorem Placement.file_mk_cons (f g : DeclFields) (above : List DeclFields) :
    Placement.file ⟨f, g :: above⟩ = f.filepath.or (Placement.file ⟨g, above⟩) := by
  cases hf : f.filepath <;> simp [Placement.file, hf, List.findSome?_cons]

/-- The nodes of a declaration in its place are the placements in it. -/
theorem Node.map_info_preorder_build (d : Declaration) (above : List DeclFields) :
    (build (Placement.path ⟨d.fields, above⟩) (Placement.file ⟨d.fields, above⟩) d).preorder.map
      Node.info = (d.placementsIn above).map Placement.info := by
  induction d using Declaration.induct generalizing above with
  | mk f ms ih =>
    rw [build_mk, preorder_mk, Declaration.placementsIn_mk]
    simp only [List.map_cons, List.map_flatMap, List.flatMap_map, List.cons.injEq]
    refine ⟨rfl, ?_⟩
    refine List.flatMap_congr fun m hm => ?_
    rw [← ih m hm (f :: above), Placement.file_mk_cons]
    rfl

namespace Snapshot

theorem map_info_preorder (d : Declaration) :
    (Node.ofDeclaration d).preorder.map Node.info = d.placements.map Placement.info := by
  have hfile : Placement.file ⟨d.fields, []⟩ = d.fields.filepath := by
    cases h : d.fields.filepath <;> simp [Placement.file, h]
  have := Node.map_info_preorder_build d []
  rw [hfile] at this
  exact this

/-! ## Faults -/

theorem firstFault_eq_none_iff (taken : List String) (ns : List Node) :
    firstFault taken ns = none ↔
      (∀ n ∈ ns, nameAllowed n = true) ∧ (∀ n ∈ ns, n.path ∉ taken) ∧
        (ns.map Node.path).Nodup := by
  induction ns generalizing taken with
  | nil => simp [firstFault]
  | cons n ns ih =>
    rw [firstFault]
    by_cases hname : nameAllowed n = true
    · by_cases hpath : n.path ∈ taken
      · simp [hname, hpath]
      · simp only [hname, Bool.not_true, Bool.false_eq_true, if_false, List.contains_iff_mem, hpath,
          ih, List.mem_cons, forall_eq_or_imp, true_and, not_false_eq_true, not_or, List.map_cons,
          List.nodup_cons, List.mem_map, not_exists, not_and]
        constructor
        · rintro ⟨h1, h2, h3⟩
          exact ⟨h1, fun m hm => (h2 m hm).2, fun m hm => (h2 m hm).1, h3⟩
        · rintro ⟨h1, h2, h3, h4⟩
          exact ⟨h1, fun m hm => ⟨h3 m hm, h2 m hm⟩, h4⟩
    · simp [hname]

/-- Only which paths are taken matters, not their order. -/
theorem firstFault_congr {taken taken' : List String} (h : ∀ x, x ∈ taken ↔ x ∈ taken')
    (ns : List Node) : firstFault taken ns = firstFault taken' ns := by
  induction ns generalizing taken taken' with
  | nil => rfl
  | cons n ns ih =>
    have hcontains : taken.contains n.path = taken'.contains n.path := by
      rw [Bool.eq_iff_iff, List.contains_iff_mem, List.contains_iff_mem, h]
    have hcons : ∀ x, x ∈ n.path :: taken ↔ x ∈ n.path :: taken' := by
      intro x
      rw [List.mem_cons, List.mem_cons, h]
    rw [firstFault, firstFault, hcontains, ih hcons]

theorem firstFault_append (taken : List String) (ns ms : List Node) :
    firstFault taken (ns ++ ms) =
      (firstFault taken ns).or (firstFault (taken ++ ns.map Node.path) ms) := by
  induction ns generalizing taken with
  | nil => simp [firstFault]
  | cons n ns ih =>
    rw [List.cons_append, firstFault, firstFault]
    split
    · rfl
    · split
      · rfl
      · rw [ih]
        congr 1
        apply firstFault_congr
        intro x
        simp only [List.mem_append, List.mem_cons, List.map_cons]
        tauto

/-- A fault is that of the first node whose name is not fit or whose path is taken by then; the name
is looked at before the path. -/
theorem exists_of_firstFault_eq_some {taken : List String} {ns : List Node} {fault : LoadFault}
    (h : firstFault taken ns = some fault) :
    ∃ before n after, ns = before ++ n :: after ∧ firstFault taken before = none ∧
      ((nameAllowed n = false ∧ fault = .invalidName n.name) ∨
        (nameAllowed n = true ∧ (n.path ∈ taken ∨ n.path ∈ before.map Node.path) ∧
          fault = .duplicatePath n.path)) := by
  induction ns generalizing taken with
  | nil => cases h
  | cons n ns ih =>
    rw [firstFault] at h
    by_cases hname : nameAllowed n = true
    · by_cases hpath : n.path ∈ taken
      · simp only [hname, hpath, Bool.not_true, Bool.false_eq_true, if_false,
          List.contains_iff_mem, if_true, Option.some.injEq] at h
        exact ⟨[], n, ns, rfl, rfl, Or.inr ⟨hname, Or.inl hpath, h.symm⟩⟩
      · simp only [hname, hpath, Bool.not_true, Bool.false_eq_true, if_false,
          List.contains_iff_mem] at h
        obtain ⟨before, m, after, rfl, hbefore, hm⟩ := ih h
        refine ⟨n :: before, m, after, rfl, ?_, ?_⟩
        · rw [firstFault]
          simp [hname, hpath, hbefore]
        · simp only [List.mem_cons, List.map_cons] at hm ⊢
          rcases hm with hm | ⟨hm, hmem, rfl⟩
          · exact Or.inl hm
          · exact Or.inr ⟨hm, by tauto, rfl⟩
    · simp only [Bool.not_eq_true] at hname
      simp only [hname, Bool.not_false, if_true, Option.some.injEq] at h
      exact ⟨[], n, ns, rfl, rfl, Or.inl ⟨hname, h.symm⟩⟩

theorem nameAllowed_eq {n : Node} {path : String} {file : Option String} {f : DeclFields}
    (h : n.info = Node.infoOf path file f) :
    nameAllowed n =
      (!f.name.isEmpty && (decide (f.kind = .reexport) || !f.name.toList.contains '.')) := by
  have hname : n.name = f.name := by rw [Node.name, h]; rfl
  have hkind : n.isReexport = decide (f.kind = .reexport) := by
    have : n.info.kind = Node.kindOf f := by rw [h]; rfl
    rw [Node.isReexport, this, Node.kindOf]
    cases f.kind <;> rfl
  rw [nameAllowed, hname, hkind]

theorem nameAllowed_iff {n : Node} {p : Placement} (h : n.info = p.info) :
    nameAllowed n = true ↔ p.NameFits := by
  simp only [nameAllowed_eq h, Placement.NameFits, Bool.and_eq_true, Bool.or_eq_true,
    Bool.not_eq_true', decide_eq_true_eq, String.isEmpty_eq_false_iff, List.contains_eq_mem,
    decide_eq_false_iff_not]
  tauto

/-! ## Outcomes -/

/-- Node by node, the listing of a tree and the placements of its declarations. -/
theorem forall_mem_preorder_iff {d : Declaration} {P : Node → Prop} {Q : Placement → Prop}
    (hPQ : ∀ n p, n.info = p.info → (P n ↔ Q p)) :
    (∀ n ∈ (Node.ofDeclaration d).preorder, P n) ↔ ∀ p ∈ d.placements, Q p := by
  have hmap := map_info_preorder d
  constructor
  · intro h p hp
    have : p.info ∈ (Node.ofDeclaration d).preorder.map Node.info := by
      rw [hmap]; exact List.mem_map_of_mem hp
    obtain ⟨n, hn, heq⟩ := List.mem_map.mp this
    exact (hPQ n p heq).mp (h n hn)
  · intro h n hn
    have : n.info ∈ d.placements.map Placement.info := by
      rw [← hmap]; exact List.mem_map_of_mem hn
    obtain ⟨p, hp, heq⟩ := List.mem_map.mp this
    exact (hPQ n p heq.symm).mpr (h p hp)

theorem map_path_preorder (d : Declaration) :
    (Node.ofDeclaration d).preorder.map Node.path = d.placements.map Placement.path := by
  have := congrArg (List.map NodeInfo.path) (map_info_preorder d)
  rw [List.map_map, List.map_map] at this
  exact this

/-- Loading succeeds exactly on a module whose names are fit and whose paths are unique, and the
result is the tree of nodes. -/
theorem load_eq_ok_iff (d : Declaration) (s : Snapshot) :
    load d = .ok s ↔
      d.fields.kind = .module ∧ (∀ p ∈ d.placements, p.NameFits) ∧
        (d.placements.map Placement.path).Nodup ∧ s = ⟨Node.ofDeclaration d⟩ := by
  rw [← map_path_preorder, ← forall_mem_preorder_iff (fun n p h => nameAllowed_iff h)]
  unfold load
  by_cases hkind : d.fields.kind = .module
  · simp only [hkind, ne_eq, not_true_eq_false, if_false, true_and]
    cases hf : firstFault [] (Node.ofDeclaration d).preorder with
    | none =>
      obtain ⟨hnames, -, hpaths⟩ := (firstFault_eq_none_iff _ _).mp hf
      simp only [Except.ok.injEq]
      exact ⟨fun h => ⟨hnames, hpaths, h.symm⟩, fun h => h.2.2.symm⟩
    | some fault =>
      simp only [reduceCtorEq, false_iff, not_and]
      intro hnames hpaths
      have := (firstFault_eq_none_iff [] _).mpr ⟨hnames, by simp, hpaths⟩
      rw [hf] at this
      cases this
  · simp [hkind]

theorem load_eq_error_of_not_module {d : Declaration} (h : d.fields.kind ≠ .module) :
    load d = .error .rootNotModule := by
  rw [load, if_pos h]

/-- Of a module that is refused, the first placement at fault is reported: all placements before it
have fit names and paths of their own. -/
theorem exists_of_load_eq_error {d : Declaration} {fault : LoadFault}
    (hkind : d.fields.kind = .module) (h : load d = .error fault) :
    ∃ before p after, d.placements = before ++ p :: after ∧ (∀ q ∈ before, q.NameFits) ∧
      (before.map Placement.path).Nodup ∧
      ((¬ p.NameFits ∧ fault = .invalidName p.fields.name) ∨
        (p.NameFits ∧ p.path ∈ before.map Placement.path ∧ fault = .duplicatePath p.path)) := by
  have hfault : firstFault [] (Node.ofDeclaration d).preorder = some fault := by
    simp only [load, hkind, ne_eq, not_true_eq_false, if_false] at h
    cases hf : firstFault [] (Node.ofDeclaration d).preorder with
    | none => rw [hf] at h; cases h
    | some f => rw [hf] at h; cases h; rfl
  obtain ⟨before, n, after, hns, hnone, hn⟩ := exists_of_firstFault_eq_some hfault
  -- the listing is cut at `n`, and the placements at the same position
  have hmap := map_info_preorder d
  rw [hns, List.map_append, List.map_cons] at hmap
  obtain ⟨ps, rest, hps, hbefore, hrest⟩ := List.map_eq_append_iff.mp hmap.symm
  obtain ⟨p, qs, rfl, hp, -⟩ := List.map_eq_cons_iff.mp hrest
  have hpaths : before.map Node.path = ps.map Placement.path := by
    have := congrArg (List.map NodeInfo.path) hbefore.symm
    rw [List.map_map, List.map_map] at this
    exact this
  have hpath : n.path = p.path := by rw [Node.path, ← hp]; rfl
  have hname : n.name = p.fields.name := by rw [Node.name, ← hp]; rfl
  have hfits : nameAllowed n = true ↔ p.NameFits := nameAllowed_iff hp.symm
  obtain ⟨hallowed, -, hnodup⟩ := (firstFault_eq_none_iff _ _).mp hnone
  refine ⟨ps, p, qs, hps, ?_, ?_, ?_⟩
  · intro q hq
    have : q.info ∈ before.map Node.info := by rw [← hbefore]; exact List.mem_map_of_mem hq
    obtain ⟨m, hm, heq⟩ := List.mem_map.mp this
    exact (nameAllowed_iff heq).mp (hallowed m hm)
  · rw [← hpaths]; exact hnodup
  · rcases hn with ⟨hbad, rfl⟩ | ⟨hok, hmem, rfl⟩
    · left
      rw [hname]
      refine ⟨fun hp => ?_, rfl⟩
      rw [hfits.mpr hp] at hbad
      cases hbad
    · right
      rw [← hpath, ← hpaths]
      exact ⟨hfits.mp hok, by simpa using hmem, rfl⟩

/-! ## Loaded snapshots -/

/-- What loading guarantees of the tree of nodes. -/
structure Sound (s : Snapshot) : Prop where
  root_isModule : s.root.isModule = true
  root_path : s.root.path = s.rootName
  nameAllowed : ∀ n ∈ s.nodes, Snapshot.nameAllowed n = true
  child_path : ∀ n ∈ s.nodes, ∀ c ∈ n.children, c.path = DottedPath.child n.path c.name
  paths_nodup : (s.nodes.map Node.path).Nodup

theorem child_path_build (path : String) (file : Option String) (d : Declaration) :
    ∀ n ∈ (Node.build path file d).preorder, ∀ c ∈ n.children,
      c.path = DottedPath.child n.path c.name := by
  induction d using Declaration.induct generalizing path file with
  | mk f ms ih =>
    intro n hn c hc
    rw [Node.build_mk, Node.preorder_mk, List.mem_cons, List.mem_flatMap] at hn
    rcases hn with rfl | ⟨b, hb, hn⟩
    · obtain ⟨m, -, rfl⟩ := List.mem_map.mp hc
      simp only [Node.path, Node.name, Node.info_build, Node.info_mk]
      rfl
    · obtain ⟨m, hm, rfl⟩ := List.mem_map.mp hb
      exact ih m hm _ _ n hn c hc

theorem Sound.of_load {d : Declaration} {s : Snapshot} (h : load d = .ok s) : s.Sound := by
  obtain ⟨hkind, hnames, hpaths, rfl⟩ := (load_eq_ok_iff d s).mp h
  have hinfo : (Node.ofDeclaration d).info = Node.infoOf d.fields.name d.fields.filepath d.fields :=
    Node.info_build _ _ _
  refine ⟨?_, ?_, ?_, ?_, ?_⟩
  · simp only [Node.isModule, hinfo, Node.infoOf, Node.kindOf, hkind]
  · simp only [Node.path, rootName, Node.name, hinfo, Node.infoOf]
  · exact (forall_mem_preorder_iff (fun n p h => nameAllowed_iff h)).mpr hnames
  · exact child_path_build _ _ d
  · rw [nodes, map_path_preorder]; exact hpaths

end Snapshot

/-! ## Small trees -/

/-- A declaration that says nothing but its kind and its name. -/
def DeclFields.named (kind : DeclKind) (name : String) : DeclFields where
  kind := kind
  name := name
  docstring := none
  filepath := none
  lineno := none
  endlineno := none
  lines := []
  bases := []
  decorators := []
  parameters := []
  returns := none
  inherited := false
  typeExpr := none
  value := none
  target := none
  wildcard := false

end ApiPages
