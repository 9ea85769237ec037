import ApiPages.Proofs.ReexportChains
import ApiPages.Proofs.Walks

/-!
# Re-exports of everything

A module that re-exports everything of another one offers the public members of that module, each
standing for the member or, if the member is a re-export of a name, for the target of that. A
re-export of everything among the members is passed over, so what the other module offers through it
is not offered again.

The last binding of a path counts. A path that lies directly in a module is bound by the module
itself or by one that it lies in, and the walk comes to these first, so the own bindings of a module
count.

Results:

* `Snapshot.Sound.modules_pairwise`: no module of the walk comes before one that it lies in.
* `Project.Built.get?_reexports`: the own bindings of a module count.
* `Reexport.get?_entriesOf_relay`: what a re-export of everything binds.
* `Project.navigationOf_relay`: what the other module declares or re-exports by name is passed on.
-/

namespace ApiPages

/-! ## Paths -/

namespace DottedPath

/-- The path goes on behind another path. -/
def Below (path top : String) : Prop := ∃ x, path = child top x

theorem child_below (top x : String) : Below (child top x) top := ⟨x, rfl⟩

theorem Below.trans {a b c : String} (h : Below a b) (h' : Below b c) : Below a c := by
  obtain ⟨x, rfl⟩ := h
  obtain ⟨y, rfl⟩ := h'
  exact ⟨child y x, child_child c y x⟩

theorem not_below_self (path : String) : ¬ Below path path := by
  rintro ⟨x, h⟩
  have := congrArg (fun s => s.toList.length) h
  simp only [toList_child, List.length_append, List.length_cons] at this
  omega

theorem child_left_cancel {a x y : String} (h : child a x = child a y) : x = y := by
  rw [← String.toList_inj, toList_child, toList_child, List.append_cancel_left_eq] at h
  exact String.toList_inj.mp (List.cons.inj h).2

/-- The first segment of a path. -/
theorem child_inj_left {a b x y : String} (ha : '.' ∉ a.toList) (hb : '.' ∉ b.toList)
    (h : child a x = child b y) : a = b := by
  rw [← String.toList_inj, toList_child, toList_child] at h
  exact String.toList_inj.mp (Text.append_cons_inj_left ha hb h).1

/-- A path that ends with a segment is that segment behind a path, or lies further below a path that
is above that one. -/
theorem child_eq_child {a b x n : String} (hn : '.' ∉ n.toList) (h : child a x = child b n) :
    (a = b ∧ x = n) ∨ Below b a := by
  rw [← String.toList_inj, toList_child, toList_child] at h
  rcases List.append_eq_append_iff.mp h with ⟨t, hb, ht⟩ | ⟨t, ha, ht⟩
  · cases t with
    | nil =>
      rw [List.append_nil] at hb
      exact Or.inl ⟨String.toList_inj.mp hb.symm, String.toList_inj.mp (List.cons.inj ht).2⟩
    | cons c t =>
      obtain ⟨rfl, -⟩ := List.cons.inj ht
      refine Or.inr ⟨String.ofList t, ?_⟩
      rw [← String.toList_inj, toList_child, hb, String.toList_ofList]
  · cases t with
    | nil =>
      rw [List.append_nil] at ha
      exact Or.inl ⟨String.toList_inj.mp ha, String.toList_inj.mp (List.cons.inj ht).2.symm⟩
    | cons c t =>
      -- the segment would have a dot in it
      rw [(List.cons.inj ht).2] at hn
      exact absurd (List.mem_append_right t List.mem_cons_self) hn

end DottedPath

/-! ## The order of a walk -/

namespace Snapshot.Sound

variable {s : Snapshot}

/-- What a walk visits is its top or lies below it. -/
theorem path_of_mem_walkFrom (hs : s.Sound) {t : Node} (ht : t ∈ s.nodes) {keep : Node → Bool}
    {depth : Nat} {a : Node} (ha : a ∈ (t.walkFrom keep depth).map Visit.module) :
    a.path = t.path ∨ DottedPath.Below a.path t.path := by
  have hmem := (Node.map_module_walkFrom_sublist keep depth t).subset ha
  have hchild : ∀ n ∈ t.preorder, ∀ b ∈ n.children, b.path = DottedPath.child n.path b.name :=
    fun n hn => hs.child_path n ((Node.preorder_sublist ht).subset hn)
  exact (Node.path_of_mem_preorder hchild a hmem).imp_left (congrArg Node.path)

/-- One member of a node, and what lies below it, does not lie below another one. -/
theorem not_below_sibling (hs : s.Sound) {t c c' : Node} (ht : t ∈ s.nodes) (hc : c ∈ t.children)
    (hc' : c' ∈ t.children) (hre : c.isReexport = false) (hre' : c'.isReexport = false)
    (hne : c ≠ c') {path : String} (hpath : path = c.path ∨ DottedPath.Below path c.path) :
    ¬ DottedPath.Below path c'.path := by
  rintro ⟨z, hz⟩
  have hmem := Snapshot.child_mem_nodes ht hc
  have hmem' := Snapshot.child_mem_nodes ht hc'
  have hname := hs.dot_not_mem_name hmem hre
  rw [hs.child_path t ht c' hc', DottedPath.child_child] at hz
  rw [hs.child_path t ht c hc] at hpath
  rcases hpath with h | ⟨x, h⟩
  · rw [DottedPath.child_left_cancel (h.symm.trans hz), DottedPath.toList_child] at hname
    exact hname (List.mem_append_right _ List.mem_cons_self)
  · rw [DottedPath.child_child] at h
    have heq := DottedPath.child_inj_left hname (hs.dot_not_mem_name hmem' hre')
      (DottedPath.child_left_cancel (h.symm.trans hz))
    apply hne
    apply hs.eq_of_path hmem hmem'
    rw [hs.child_path t ht c hc, hs.child_path t ht c' hc', heq]

/-- A walk over modules comes to a module before it comes to what lies below it. -/
theorem walkFrom_pairwise (hs : s.Sound) {t : Node} (ht : t ∈ s.nodes) (depth : Nat) :
    ((t.walkFrom Node.isModule depth).map Visit.module).Pairwise
      fun a b => ¬ DottedPath.Below a.path b.path := by
  induction t using Node.induct generalizing depth with
  | mk i cs ih =>
    have hmem : ∀ c ∈ cs.filter Node.isModule, c ∈ s.nodes := fun c hc =>
      Snapshot.child_mem_nodes ht (List.mem_filter.mp hc).1
    rw [Node.walkFrom_mk, List.map_cons, List.map_flatMap, List.pairwise_cons,
      List.pairwise_flatMap]
    refine ⟨?_, fun c hc => ih c (List.mem_filter.mp hc).1 (hmem c hc) (depth + 1), ?_⟩
    · intro b hb hbelow
      obtain ⟨c, hc, hb⟩ := List.mem_flatMap.mp hb
      have hctop : DottedPath.Below c.path (Node.mk i cs).path :=
        ⟨_, hs.child_path _ ht c (List.mem_filter.mp hc).1⟩
      have hbtop : DottedPath.Below b.path (Node.mk i cs).path := by
        rcases hs.path_of_mem_walkFrom (hmem c hc) hb with h | h
        · rwa [h]
        · exact h.trans hctop
      exact DottedPath.not_below_self _ (hbelow.trans hbtop)
    · refine ((hs.children_nodup ht).filter Node.isModule).imp_of_mem ?_
      intro c c' hc hc' hne a ha b hb hab
      obtain ⟨hcs, hmodule⟩ := List.mem_filter.mp hc
      obtain ⟨hcs', hmodule'⟩ := List.mem_filter.mp hc'
      refine hs.not_below_sibling ht hcs hcs' (Node.isReexport_of_isModule hmodule)
        (Node.isReexport_of_isModule hmodule') hne (hs.path_of_mem_walkFrom (hmem c hc) ha) ?_
      rcases hs.path_of_mem_walkFrom (hmem c' hc') hb with h | h
      · rwa [← h]
      · exact hab.trans h

/-- No module of the walk comes before one that it is or lies in. -/
theorem modules_pairwise (hs : s.Sound) :
    (s.modules.map Visit.module).Pairwise
      fun a b => a.path ≠ b.path ∧ ¬ DottedPath.Below a.path b.path := by
  have hsublist := Node.map_module_walkFrom_sublist Node.isModule 0 s.root
  have hpaths := List.pairwise_map.mp (hs.paths_nodup.sublist (hsublist.map Node.path))
  exact hpaths.and (hs.walkFrom_pairwise s.root_mem_nodes 0)

end Snapshot.Sound

/-! ## Bindings of one module -/

/-- The only re-export of the module is that of everything of `source`. -/
def Node.Relays (m source : Node) : Prop :=
  ∃ w ∈ m.children, w.info.kind = .reexport (some source.path) true ∧
    ∀ a ∈ m.children, a.isReexport = true → a = w

theorem Node.relays_of_children {m source w : Node} (h : m.children = [w])
    (hkind : w.info.kind = .reexport (some source.path) true) : m.Relays source := by
  refine ⟨w, by rw [h]; exact List.mem_singleton.mpr rfl, hkind, ?_⟩
  intro a ha _
  rw [h] at ha
  exact List.mem_singleton.mp ha

namespace Reexport

variable {s : Snapshot} {m : Node}

/-- The entries that the members of a module add to the map. -/
def entriesOf (s : Snapshot) (m : Node) : List (String × String) :=
  (m.children.flatMap (ofNode s m)).filterMap entry?

theorem mem_entriesOf_iff {e : String × String} :
    e ∈ entriesOf s m ↔ ∃ a ∈ m.children, binding e.1 e.2 ∈ ofNode s m a := by
  simp only [entriesOf, List.mem_filterMap, List.mem_flatMap]
  constructor
  · rintro ⟨r, ⟨a, ha, hr⟩, he⟩
    cases r with
    | binding path target =>
      cases he
      exact ⟨a, ha, hr⟩
    | fault path => cases he
  · rintro ⟨a, ha, hr⟩
    exact ⟨_, ⟨a, ha, hr⟩, rfl⟩

theorem filterMap_entry?_ofWalk (s : Snapshot) (walk : List Visit) :
    (ofWalk s walk).filterMap entry? = walk.flatMap fun v => entriesOf s v.module := by
  rw [ofWalk, List.filterMap_flatMap]
  rfl

theorem mem_ofMembers_iff {root path key target : String} {source : Node} :
    binding key target ∈ ofMembers root path source ↔
      ∃ c ∈ source.children, isOffered c = true ∧ memberTarget? root c = some target ∧
        DottedPath.child path c.name = key := by
  simp only [ofMembers, List.mem_filterMap, List.mem_filter, Option.map_eq_some_iff,
    binding.injEq, and_assoc]
  constructor
  · rintro ⟨c, hc, hoffered, t, ht, hkey, rfl⟩
    exact ⟨c, hc, hoffered, ht, hkey⟩
  · rintro ⟨c, hc, hoffered, ht, hkey⟩
    exact ⟨c, hc, hoffered, target, ht, hkey, rfl⟩

theorem memberTarget?_of_not_isReexport {root : String} {c : Node} (h : c.isReexport = false) :
    memberTarget? root c = some c.path := by
  unfold Node.isReexport at h
  unfold memberTarget?
  cases hk : c.info.kind <;> simp_all

/-- What a member stands for lies inside the project. -/
theorem isInternal_of_memberTarget? (hs : s.Sound) {c : Node} (hc : c ∈ s.nodes) {target : String}
    (h : memberTarget? s.rootName c = some target) :
    DottedPath.isInternal s.rootName target = true := by
  unfold memberTarget? at h
  split at h
  · cases h
  · exact (Option.filter_eq_some_iff.mp h).2
  · cases h
    exact hs.isInternal_path hc

/-- What a member of a module binds lies below the module and stands for something inside the
project. -/
theorem of_mem_ofNode (hs : s.Sound) {a : Node} {key target : String}
    (h : binding key target ∈ ofNode s m a) :
    (∃ x, key = DottedPath.child m.path x) ∧ DottedPath.isInternal s.rootName target = true := by
  unfold ofNode at h
  split at h
  · cases List.mem_singleton.mp h
  · next t wildcard _ =>
    cases hin : DottedPath.isInternal s.rootName t with
    | false =>
      rw [hin] at h
      cases h
    | true =>
      simp only [hin, Bool.not_true, Bool.false_eq_true, if_false] at h
      split at h
      · split at h
        · next source hsource =>
          obtain ⟨c, hc, -, htarget, hkey⟩ := mem_ofMembers_iff.mp h
          have hmem : source ∈ s.nodes :=
            List.mem_of_find?_eq_some (Option.filter_eq_some_iff.mp hsource).1
          exact ⟨⟨c.name, hkey.symm⟩,
            isInternal_of_memberTarget? hs (Snapshot.child_mem_nodes hmem hc) htarget⟩
        · cases List.mem_singleton.mp h
      · cases List.mem_singleton.mp h
        exact ⟨⟨a.name, rfl⟩, hin⟩
  · cases h

theorem ofNode_of_not_isReexport {a : Node} (h : a.isReexport = false) : ofNode s m a = [] := by
  unfold Node.isReexport at h
  unfold ofNode
  cases hk : a.info.kind <;> simp_all

theorem ofNode_wildcard (hs : s.Sound) {w source : Node} (hsource : source ∈ s.nodes)
    (hmodule : source.isModule = true) (hkind : w.info.kind = .reexport (some source.path) true) :
    ofNode s m w = ofMembers s.rootName m.path source := by
  have hfind : (s.find? source.path).filter Node.isModule = some source := by
    rw [hs.find?_path hsource, Option.filter_some, if_pos hmodule]
  rw [ofNode, hkind]
  simp only [hs.isInternal_path hsource, Bool.not_true, Bool.false_eq_true, if_false, if_true,
    hfind]

/-- A module that relays another one binds the names of what that offers. -/
theorem get?_entriesOf_relay (hs : s.Sound) {source c : Node} (hrelays : m.Relays source)
    (hsource : source ∈ s.nodes) (hmodule : source.isModule = true) (hc : c ∈ source.children)
    (hoffered : isOffered c = true) {target : String}
    (htarget : memberTarget? s.rootName c = some target) :
    (Dict.ofList (entriesOf s m)).get? (DottedPath.child m.path c.name) = some target := by
  obtain ⟨w, hw, hkind, honly⟩ := hrelays
  have hmem : ∀ e : String × String, e ∈ entriesOf s m ↔
      binding e.1 e.2 ∈ ofMembers s.rootName m.path source := by
    intro e
    rw [mem_entriesOf_iff, ← ofNode_wildcard hs hsource hmodule hkind]
    constructor
    · rintro ⟨a, ha, he⟩
      cases hre : a.isReexport with
      | true => rwa [← honly a ha hre]
      | false =>
        rw [ofNode_of_not_isReexport hre] at he
        cases he
    · exact fun he => ⟨w, hw, he⟩
  rw [Dict.get?_ofList_eq_some_iff, hmem, mem_ofMembers_iff]
  · exact ⟨c, hc, hoffered, htarget, rfl⟩
  · -- members of the same name are the same member
    intro e he f hf hkey
    obtain ⟨a, ha, -, he, hea⟩ := mem_ofMembers_iff.mp ((hmem e).mp he)
    obtain ⟨b, hb, -, hf, hfb⟩ := mem_ofMembers_iff.mp ((hmem f).mp hf)
    have hname := DottedPath.child_left_cancel (hea.trans (hkey.trans hfb.symm))
    have hamem := Snapshot.child_mem_nodes hsource ha
    have hbmem := Snapshot.child_mem_nodes hsource hb
    have hab : a = b := by
      apply hs.eq_of_path hamem hbmem
      rw [hs.child_path _ hsource a ha, hs.child_path _ hsource b hb, hname]
    rw [hab] at he
    exact Option.some.inj (he.symm.trans hf)

end Reexport

/-! ## The map of re-exports -/

namespace Project

variable {p : Project} {s : Snapshot} {settings : Settings}

/-- The own bindings of a module count: whatever it lies in has been passed by the walk before. -/
theorem Built.get?_reexports (hp : p.Built s settings) (hs : s.Sound) {v : Visit}
    (hv : v ∈ s.modules) {n target : String} (hn : '.' ∉ n.toList)
    (h : (Dict.ofList (Reexport.entriesOf s v.module)).get? (DottedPath.child v.module.path n) =
      some target) :
    p.reexports.get? (DottedPath.child v.module.path n) = some target := by
  obtain ⟨before, after, hsplit⟩ := List.append_of_mem hv
  have hpairwise := hs.modules_pairwise
  rw [hsplit, List.map_append, List.map_cons, List.pairwise_append, List.pairwise_cons]
    at hpairwise
  have hlater : ∀ e ∈ after.flatMap fun u => Reexport.entriesOf s u.module,
      e.1 ≠ DottedPath.child v.module.path n := by
    intro e he hkey
    obtain ⟨u, hu, he⟩ := List.mem_flatMap.mp he
    obtain ⟨hne, hbelow⟩ := hpairwise.2.1.1 _ (List.mem_map_of_mem hu)
    obtain ⟨a, -, ha⟩ := Reexport.mem_entriesOf_iff.mp he
    obtain ⟨⟨x, hx⟩, -⟩ := Reexport.of_mem_ofNode hs ha
    rcases DottedPath.child_eq_child hn (hx.symm.trans hkey) with ⟨hpath, -⟩ | h
    · exact hne hpath.symm
    · exact hbelow h
  rw [hp.reexports, Reexport.filterMap_entry?_ofWalk, hsplit, List.flatMap_append,
    List.flatMap_cons, Dict.get?_ofList_append, Dict.get?_ofList_append,
    Dict.get?_ofList_eq_none hlater, h]
  rfl

/-- Re-exports stand for paths inside the project. -/
theorem Built.isInternal_of_get?_reexports (hp : p.Built s settings) (hs : s.Sound)
    {path target : String} (h : p.reexports.get? path = some target) :
    DottedPath.isInternal s.rootName target = true := by
  rw [hp.reexports, Reexport.filterMap_entry?_ofWalk, Dict.get?_ofList,
    Option.map_eq_some_iff] at h
  obtain ⟨e, hfind, rfl⟩ := h
  have hmem := List.mem_reverse.mp (List.mem_of_find?_eq_some hfind)
  obtain ⟨v, -, he⟩ := List.mem_flatMap.mp hmem
  obtain ⟨a, -, ha⟩ := Reexport.mem_entriesOf_iff.mp he
  exact (Reexport.of_mem_ofNode hs ha).2

/-- There is no symbol at a name that a module does not have, unless it is the name of the root
below the root. -/
theorem Built.symbolAt_child (hp : p.Built s settings) (hs : s.Sound) {m : Node}
    (hm : m ∈ s.nodes) {n : String} (hn : '.' ∉ n.toList) (hnew : ∀ a ∈ m.children, a.name ≠ n)
    (hpath : DottedPath.child m.path n ≠ DottedPath.child s.rootName s.rootName) :
    p.symbolAt (DottedPath.child m.path n) = none := by
  obtain ⟨y, hy⟩ : DottedPath.Below (DottedPath.child m.path n) s.rootName := by
    rcases hs.path_cases hm with rfl | hbelow
    · rw [hs.root_path]
      exact DottedPath.child_below _ _
    · exact (DottedPath.child_below _ _).trans hbelow
  rw [Option.eq_none_iff_forall_ne_some]
  intro r hr
  rw [symbolAt, hp.rootName_eq, hp.get?_symbols_iff hs, hy, DottedPath.relativeTo_child] at hr
  obtain ⟨v, hv, ⟨x, k⟩, hx, hkey, -⟩ := hr
  have hdoc := Snapshot.documents_of_mem_symbolsOf hs hv hx
  have hre := hdoc.isReexport_eq_false hs
  cases hdoc with
  | root =>
    rw [hs.root_path, DottedPath.relativeTo_self] at hkey
    exact hpath (by rw [hy, hkey])
  | member hq hxq _ _ =>
    have hxmem := Snapshot.child_mem_nodes hq hxq
    rcases hs.path_cases hxmem with rfl | ⟨z, hz⟩
    · exact hs.root_not_mem_children hq hxq
    · rw [hz, DottedPath.relativeTo_child] at hkey
      have hxpath := hs.child_path _ hq _ hxq
      rw [hz, ← hkey, ← hy] at hxpath
      obtain ⟨hqm, hname⟩ := DottedPath.child_inj hn (hs.dot_not_mem_name hxmem hre) hxpath
      rw [← hs.eq_of_path hm hq hqm] at hxq
      exact hnew _ hxq hname.symm

/-- The name of the root below the root leads to the page of the root. -/
theorem Built.navigationOf_child_rootName (hp : p.Built s settings) (hs : s.Sound) :
    p.navigationOf (DottedPath.child s.rootName s.rootName) = some s.rootName := by
  refine follow_of_symbolAt (r := ⟨.module, s.rootName⟩) ?_ _
  rw [symbolAt, hp.rootName_eq, DottedPath.relativeTo_child]
  exact hp.symbols_rootName hs

/-! ## Passing names on -/

/-- The member decides where its path leads: it is declared, or it is a re-export of a name that
counts in the map and that no symbol hides. -/
def Decides (p : Project) (c : Node) : Prop :=
  c.isReexport = false ∨
    ∃ target, c.info.kind = .reexport (some target) false ∧
      p.reexports.get? c.path = some target ∧ c.path ≠ DottedPath.child p.rootName p.rootName

/-- Such a member stands for something that leads where the member leads. -/
theorem Built.exists_memberTarget? (hp : p.Built s settings) (hs : s.Sound)
    (hdepth : p.reexports.size ≤ p.maxDepth) {c : Node} (hc : c ∈ s.nodes) (h : p.Decides c) :
    ∃ target, Reexport.memberTarget? s.rootName c = some target ∧
      p.navigationOf target = p.navigationOf c.path := by
  rcases h with hre | ⟨target, hkind, hget, hne⟩
  · exact ⟨c.path, Reexport.memberTarget?_of_not_isReexport hre, rfl⟩
  · rw [hp.rootName_eq] at hne
    have hre : c.isReexport = true := by rw [Node.isReexport, hkind]
    have hnone := hp.symbolAt_reexport hs hc hre hne
    refine ⟨target, ?_, (navigationOf_of_reexport hdepth hnone hget).symm⟩
    rw [Reexport.memberTarget?, hkind]
    exact Option.filter_eq_some_iff.mpr ⟨rfl, hp.isInternal_of_get?_reexports hs hget⟩

/-- A module that relays another one passes on the members that decide where their paths lead: the
same name leads somewhere, and to the same place unless it is the name of the root below the
root. -/
theorem navigationOf_relay {d : Declaration} {project : Noted Project}
    (hload : Snapshot.load d = .ok s) (hbuild : Project.build s settings = .ok project)
    (hdepth : project.value.reexports.size ≤ settings.maxDepth) {v : Visit} (hv : v ∈ s.modules)
    {source c : Node} (hrelays : v.module.Relays source) (hsource : source ∈ s.nodes)
    (hmodule : source.isModule = true) (hc : c ∈ source.children) (hcmodule : c.isModule = false)
    (hpublic : c.name.toList.head? ≠ some '_') (hdot : '.' ∉ c.name.toList)
    (hnew : ∀ a ∈ v.module.children, a.name ≠ c.name) (hdecides : project.value.Decides c) :
    ((project.value.navigationOf (DottedPath.child source.path c.name)).isSome = true →
        (project.value.navigationOf (DottedPath.child v.module.path c.name)).isSome = true) ∧
      (DottedPath.child v.module.path c.name ≠ DottedPath.child s.rootName s.rootName →
        project.value.navigationOf (DottedPath.child v.module.path c.name) =
          project.value.navigationOf (DottedPath.child source.path c.name)) := by
  have hs := Snapshot.Sound.of_load hload
  have hp := (built_of_build hbuild).1
  rw [← hp.maxDepth] at hdepth
  have hoffered : Reexport.isOffered c = true := by simp [Reexport.isOffered, hcmodule, hpublic]
  obtain ⟨target, htarget, hleads⟩ :=
    hp.exists_memberTarget? hs hdepth (Snapshot.child_mem_nodes hsource hc) hdecides
  have hget := hp.get?_reexports hs hv hdot
    (Reexport.get?_entriesOf_relay hs hrelays hsource hmodule hc hoffered htarget)
  have hsame : DottedPath.child v.module.path c.name ≠ DottedPath.child s.rootName s.rootName →
      project.value.navigationOf (DottedPath.child v.module.path c.name) =
        project.value.navigationOf (DottedPath.child source.path c.name) := by
    intro hne
    have hnone := hp.symbolAt_child hs (Node.walkFrom_modules hv).1 hdot hnew hne
    rw [navigationOf_of_reexport hdepth hnone hget, hleads, hs.child_path _ hsource c hc]
  refine ⟨fun hsome => ?_, hsame⟩
  by_cases hroot : DottedPath.child v.module.path c.name = DottedPath.child s.rootName s.rootName
  · rw [hroot, hp.navigationOf_child_rootName hs]
    rfl
  · rwa [hsame hroot]

/-- A file of the package `p`. -/
def fileOf (name : String) (members : List Declaration) : Declaration :=
  .mk { DeclFields.named .module name with filepath := some ("p/" ++ name ++ ".py") } members

/-- The re-export of everything of the module at a path. -/
def everythingOf (path : String) : Declaration :=
  .mk { DeclFields.named .reexport (path ++ "/*") with target := some path, wildcard := true } []

/-- A package with a class in `core` that is relayed by `mid`, which is relayed by `api`. In `over`
the re-export of everything replaces that of a name, and `late` relays this. The class has a module
among its members that relays `core`. -/
def relayedPackage : Declaration :=
  .mk { DeclFields.named .module "p" with
      filepath := some "p/__init__.py", docstring := some "Root." }
    [fileOf "core"
        [.mk { DeclFields.named .classType "X" with docstring := some "A class." }
          [fileOf "inner" [everythingOf "p.core"]]],
      fileOf "mid" [everythingOf "p.core"],
      fileOf "api" [everythingOf "p.mid"],
      fileOf "over"
        [.mk { DeclFields.named .reexport "X" with target := some "p.missing" } [],
          everythingOf "p.core"],
      fileOf "late" [everythingOf "p.over"]]

namespace relayedPackage

/-- The files `core`, `mid`, `api`, `over` and `late` of the package. -/
def file (i : Fin 5) : Node := (Node.ofDeclaration relayedPackage).children.get i

/-- The class in `core`. -/
def classNode : Node := (file 0).children.head (by decide +kernel)

/-- The module among the members of the class. -/
def inner : Node := classNode.children.head (by decide +kernel)

theorem file_mem_nodes (i : Fin 5) :
    file i ∈ Snapshot.nodes ⟨Node.ofDeclaration relayedPackage⟩ :=
  Node.mem_preorder_of_mem_children (Node.self_mem_preorder _) (List.get_mem _ _)

theorem inner_mem_nodes : inner ∈ Snapshot.nodes ⟨Node.ofDeclaration relayedPackage⟩ :=
  have hclass : classNode ∈ Snapshot.nodes ⟨Node.ofDeclaration relayedPackage⟩ :=
    Snapshot.child_mem_nodes (file_mem_nodes 0) (List.head_mem _)
  Snapshot.child_mem_nodes hclass (List.head_mem _)

end relayedPackage

/-- Through the file `mid` the class of the file `core` is reached. -/
theorem relayedPackage_passes_on :
    ∃ s project, Snapshot.load relayedPackage = .ok s ∧
      Project.build s Settings.standard = .ok project ∧
      project.value.navigationOf "p.mid.X" = project.value.navigationOf "p.core.X" ∧
      project.value.navigationOf "p.core.X" = some "core.X" := by
  refine ⟨⟨Node.ofDeclaration relayedPackage⟩, _, rfl, rfl, ?_, by decide +kernel⟩
  have hbuild : Project.build ⟨Node.ofDeclaration relayedPackage⟩ Settings.standard = .ok _ := rfl
  have hv : ⟨1, relayedPackage.file 1⟩ ∈ Snapshot.modules ⟨Node.ofDeclaration relayedPackage⟩ :=
    Node.mem_walkFrom_iff.mpr ⟨1, .step .self (List.get_mem _ _) rfl, rfl⟩
  have hrelays : (relayedPackage.file 1).Relays (relayedPackage.file 0) :=
    Node.relays_of_children rfl rfl
  have hc : relayedPackage.classNode ∈ (relayedPackage.file 0).children := List.head_mem _
  have h := navigationOf_relay (d := relayedPackage) rfl hbuild (by decide +kernel) hv hrelays
    (relayedPackage.file_mem_nodes 0) rfl hc rfl (by decide +kernel) (by decide +kernel)
    (by decide +kernel) (Or.inl rfl)
  exact h.2 (by decide +kernel)

/-- A public name that leads somewhere in the source, and is the name of no module in it, leads
nowhere in a module that relays the source and does not have the name itself. -/
structure Withholds (p : Project) (m source : Node) (n : String) : Prop where
  mem : m ∈ p.snapshot.nodes
  isModule : m.isModule = true
  source_mem : source ∈ p.snapshot.nodes
  source_isModule : source.isModule = true
  relays : m.Relays source
  dot_not_mem : '.' ∉ n.toList
  isPublic : n.toList.head? ≠ some '_'
  no_submodule : ∀ c ∈ source.children, c.isModule = true → c.name ≠ n
  new : ∀ a ∈ m.children, a.name ≠ n
  leads : (p.navigationOf (DottedPath.child source.path n)).isSome = true
  lost : p.navigationOf (DottedPath.child m.path n) = none

/-- A name is lost if the source has it only through a re-export of everything, if such a re-export
has replaced that of the name, and in a module that is a member of a class. -/
theorem relayedPackage_withholds :
    ∃ s project, Snapshot.load relayedPackage = .ok s ∧
      Project.build s Settings.standard = .ok project ∧
      project.value.reexports.size ≤ Settings.standard.maxDepth ∧
      project.value.Withholds (relayedPackage.file 2) (relayedPackage.file 1) "X" ∧
      project.value.Withholds (relayedPackage.file 4) (relayedPackage.file 3) "X" ∧
      project.value.Withholds relayedPackage.inner (relayedPackage.file 0) "X" := by
  refine ⟨⟨Node.ofDeclaration relayedPackage⟩, _, rfl, rfl, by decide +kernel, ?_, ?_, ?_⟩
  · exact ⟨relayedPackage.file_mem_nodes 2, rfl, relayedPackage.file_mem_nodes 1, rfl,
      Node.relays_of_children rfl rfl, by decide +kernel, by decide +kernel, by decide +kernel,
      by decide +kernel, by decide +kernel, by decide +kernel⟩
  · exact ⟨relayedPackage.file_mem_nodes 4, rfl, relayedPackage.file_mem_nodes 3, rfl,
      Node.relays_of_children rfl rfl, by decide +kernel, by decide +kernel, by decide +kernel,
      by decide +kernel, by decide +kernel, by decide +kernel⟩
  · exact ⟨relayedPackage.inner_mem_nodes, rfl, relayedPackage.file_mem_nodes 0, rfl,
      Node.relays_of_children rfl rfl, by decide +kernel, by decide +kernel, by decide +kernel,
      by decide +kernel, by decide +kernel, by decide +kernel⟩

end Project

end ApiPages
