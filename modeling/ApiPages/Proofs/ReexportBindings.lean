import ApiPages.Proofs.Bins
import ApiPages.Proofs.DepthGuard
import ApiPages.Proofs.WildcardReexports
import Mathlib.Data.List.Induction
import Mathlib.Data.Prod.Lex

/-!
# What the map of re-exports accounts for

Every re-export that is a member of a module is accounted for, if the module is reached from the
root through modules. It binds paths to what they stand for, or it has no usable target and is
reported, or it leads out of the project and nothing follows from it. A path may be bound more than
once: by two members of one module, and by a module that lies in another one, since the name of a
re-export may have dots in it. Bindings have places, and the one at the last place counts.

Results:

* `Dict.isLast_ofList_flatMap`: in a dictionary of entries the one at the last place counts.
* `Snapshot.Sound.map_module_modules`: the walk over modules lists them in pre-order.
* `Reexport.isLast_ofNode`: what one re-export binds.
* `Snapshot.Sound.mem_findings_modules_iff`: which re-exports are reported.
* `ReexportMap.build_accounts`: what the map holds and what is reported.
-/

namespace ApiPages

/-! ## Last places -/

namespace Dict

variable {α β ι : Type} [LinearOrder ι]

/-- The value stands at the last of the places that have one; there is none if no place has one. -/
def IsLast (holds : ι → β → Prop) : Option β → Prop
  | none => ∀ i v, ¬ holds i v
  | some v => ∃ i, holds i v ∧ ∀ j w, holds j w → j < i ∨ j = i ∧ w = v

namespace IsLast

variable {holds holds' : ι → β → Prop} {o o' : Option β}

theorem eq_some_iff (h : IsLast holds o) {v : β} :
    o = some v ↔ ∃ i, holds i v ∧ ∀ j w, holds j w → j ≤ i := by
  cases o with
  | none =>
    simp only [reduceCtorEq, false_iff]
    rintro ⟨i, hi, -⟩
    exact h i v hi
  | some u =>
    obtain ⟨i, hi, hlast⟩ := h
    constructor
    · rintro ⟨⟩
      exact ⟨i, hi, fun j w hj => (hlast j w hj).elim le_of_lt fun h => le_of_eq h.1⟩
    · rintro ⟨j, hj, hmax⟩
      rcases hlast j v hj with hlt | ⟨-, rfl⟩
      · exact absurd hlt (not_lt_of_ge (hmax i u hi))
      · rfl

theorem congr (h : IsLast holds o) (heq : ∀ i v, holds' i v ↔ holds i v) : IsLast holds' o := by
  obtain rfl : holds' = holds := by
    funext i v
    exact propext (heq i v)
  exact h

/-- Of two ranges of places the later one counts if it has a value. -/
theorem or (h : IsLast holds o) (h' : IsLast holds' o')
    (hlt : ∀ i v j w, holds i v → holds' j w → i < j) :
    IsLast (fun i v => holds i v ∨ holds' i v) (o'.or o) := by
  cases o' with
  | some v =>
    obtain ⟨i, hi, hlast⟩ := h'
    refine ⟨i, Or.inr hi, ?_⟩
    rintro j w (hj | hj)
    · exact Or.inl (hlt j w i v hj hi)
    · exact hlast j w hj
  | none =>
    rw [Option.none_or]
    refine h.congr fun i v => ?_
    simp [h' i v]

end IsLast

theorem exists_getElem?_concat_iff {xs : List α} {x : α} {i : ℕ} {P : α → Prop} :
    (∃ y, (xs ++ [x])[i]? = some y ∧ P y) ↔
      (∃ y, xs[i]? = some y ∧ P y) ∨ i = xs.length ∧ P x := by
  rcases Nat.lt_trichotomy i xs.length with hlt | rfl | hgt
  · simp [List.getElem?_append_left hlt, hlt.ne]
  · simp
  · have hxs : xs[i]? = none := List.getElem?_eq_none hgt.le
    have hconcat : (xs ++ [x])[i]? = none := by
      rw [List.getElem?_append_right hgt.le, List.getElem?_eq_none]
      rw [List.length_singleton]
      omega
    simp [hxs, hconcat, hgt.ne']

/-- In a dictionary of entries, at most one from each element, the last element counts. -/
theorem isLast_ofList_filterMap (g : α → Option (String × β)) (xs : List α) (k : String) :
    IsLast (fun (i : ℕ) v => ∃ x, xs[i]? = some x ∧ g x = some (k, v))
      ((ofList (xs.filterMap g)).get? k) := by
  induction xs using List.reverseRecOn with
  | nil => simp [IsLast, ofList, insertAll]
  | append_singleton xs x ih =>
    have hlast : IsLast (fun i v => i = xs.length ∧ g x = some (k, v))
        ((ofList ([x].filterMap g)).get? k) := by
      rw [get?_ofList]
      cases hx : g x with
      | none => simp [IsLast, hx]
      | some e =>
        obtain ⟨key, u⟩ := e
        by_cases hk : key = k
        · simp [IsLast, hx, hk]
        · simp [IsLast, hx, hk]
    rw [List.filterMap_append, get?_ofList_append]
    refine (ih.or hlast ?_).congr fun i v => ?_
    · rintro i v j w ⟨y, hy, -⟩ ⟨rfl, -⟩
      exact (List.getElem?_eq_some_iff.mp hy).1
    · exact exists_getElem?_concat_iff

/-- In a dictionary of the entries of some elements, the last element that has the name counts, and
in its entries the last place. -/
theorem isLast_ofList_flatMap {f : α → List (String × β)} {xs : List α} {k : String}
    {holds : α → ι → β → Prop} (h : ∀ x ∈ xs, IsLast (holds x) ((ofList (f x)).get? k)) :
    IsLast (fun (p : ℕ ×ₗ ι) v => ∃ x, xs[(ofLex p).1]? = some x ∧ holds x (ofLex p).2 v)
      ((ofList (xs.flatMap f)).get? k) := by
  induction xs using List.reverseRecOn with
  | nil => simp [IsLast, ofList, insertAll]
  | append_singleton xs x ih =>
    have hlast : IsLast (fun (p : ℕ ×ₗ ι) v => (ofLex p).1 = xs.length ∧ holds x (ofLex p).2 v)
        ((ofList (f x)).get? k) := by
      have hx := h x (by simp)
      cases hget : (ofList (f x)).get? k with
      | none =>
        rw [hget] at hx
        exact fun p v hp => hx _ v hp.2
      | some u =>
        rw [hget] at hx
        obtain ⟨j, hj, hmax⟩ := hx
        refine ⟨toLex (xs.length, j), ⟨rfl, hj⟩, ?_⟩
        rintro p v ⟨hp, hv⟩
        rcases hmax _ v hv with hlt | ⟨heq, rfl⟩
        · exact Or.inl (Prod.Lex.lt_iff.mpr (Or.inr ⟨hp, hlt⟩))
        · exact Or.inr ⟨Prod.ext hp heq, rfl⟩
    rw [List.flatMap_append, List.flatMap_singleton, get?_ofList_append]
    refine ((ih fun y hy => h y (List.mem_append_left _ hy)).or hlast ?_).congr fun p v => ?_
    · rintro p v q w ⟨y, hy, -⟩ ⟨hq, -⟩
      refine Prod.Lex.lt_iff.mpr (Or.inl ?_)
      rw [hq]
      exact (List.getElem?_eq_some_iff.mp hy).1
    · exact exists_getElem?_concat_iff

end Dict

/-! ## Modules in pre-order -/

theorem eq_filter_of_sublist {α : Type} {l l' : List α} (h : l.Sublist l') (hnodup : l'.Nodup)
    {p : α → Bool} (hp : ∀ x ∈ l', p x = true ↔ x ∈ l) : l = l'.filter p := by
  induction h with
  | slnil => rfl
  | @cons l l' a hsub ih =>
    obtain ⟨ha, hnodup⟩ := List.nodup_cons.mp hnodup
    have hpa : p a = false := by
      rw [Bool.eq_false_iff, ne_eq, hp a List.mem_cons_self]
      exact fun hmem => ha (hsub.subset hmem)
    rw [List.filter_cons_of_neg (by simp [hpa])]
    exact ih hnodup fun x hx => hp x (List.mem_cons_of_mem a hx)
  | @cons_cons l l' a hsub ih =>
    obtain ⟨ha, hnodup⟩ := List.nodup_cons.mp hnodup
    rw [List.filter_cons_of_pos ((hp a List.mem_cons_self).mpr List.mem_cons_self)]
    refine congrArg (a :: ·) (ih hnodup fun x hx => ?_)
    rw [hp x (List.mem_cons_of_mem a hx), List.mem_cons, or_iff_right]
    rintro rfl
    exact ha hx

theorem flatMap_filter {α β : Type} (p : α → Bool) (f : α → List β) (xs : List α) :
    (xs.filter p).flatMap f = xs.flatMap fun x => if p x = true then f x else [] := by
  induction xs with
  | nil => rfl
  | cons x xs ih =>
    rw [List.filter_cons, List.flatMap_cons, ← ih]
    split <;> rfl

namespace Snapshot

variable {s : Snapshot}

/-- The node is the root, or a module that is reached from the root through modules. -/
def Reaches (s : Snapshot) (m : Node) : Prop := ∃ k, s.root.Below Node.isModule k m

theorem mem_map_module_modules_iff {m : Node} : m ∈ s.modules.map Visit.module ↔ s.Reaches m := by
  simp only [List.mem_map, modules, Node.mem_walkFrom_iff]
  constructor
  · rintro ⟨v, ⟨k, hv, -⟩, rfl⟩
    exact ⟨k, hv⟩
  · rintro ⟨k, hm⟩
    exact ⟨⟨k, m⟩, ⟨k, hm, by simp⟩, rfl⟩

open Classical in
/-- The walk over modules lists the modules that it reaches in pre-order. -/
theorem Sound.map_module_modules (hs : s.Sound) :
    s.modules.map Visit.module = s.nodes.filter fun n => decide (s.Reaches n) := by
  refine eq_filter_of_sublist (Node.map_module_walkFrom_sublist _ _ _) hs.nodes_nodup fun n _ => ?_
  rw [decide_eq_true_iff, ← mem_map_module_modules_iff]
  rfl

end Snapshot

/-! ## Bindings -/

namespace Reexport

variable {s : Snapshot} {m a : Node}

/-- What a member stands for where everything of its module is re-exported: a declaration stands for
itself, and a re-export of a name for its target if that lies inside the project. -/
inductive StandsFor (root : String) (c : Node) : String → Prop
  | declared (hre : c.isReexport = false) : StandsFor root c c.path
  | named {target : String} (hkind : c.info.kind = .reexport (some target) false)
      (hinside : DottedPath.isInternal root target = true) : StandsFor root c target

/-- The re-export `a` of the module `m` binds a path to a target. A re-export of everything binds
paths at the positions of the members that it offers. -/
inductive Binds (s : Snapshot) (m a : Node) : ℕ → String → String → Prop
  | name {target : String} (hkind : a.info.kind = .reexport (some target) false)
      (hinside : DottedPath.isInternal s.rootName target = true) :
      Binds s m a 0 (DottedPath.child m.path a.name) target
  | member {source c : Node} {k : ℕ} {target : String}
      (hkind : a.info.kind = .reexport (some source.path) true) (hsource : source ∈ s.nodes)
      (hmodule : source.isModule = true) (hc : source.children[k]? = some c)
      (hother : c.isModule = false) (hpublic : c.name.toList.head? ≠ some '_')
      (hstands : StandsFor s.rootName c target) :
      Binds s m a k (DottedPath.child m.path c.name) target

theorem memberTarget?_eq_some_iff {root target : String} {c : Node} :
    memberTarget? root c = some target ↔ StandsFor root c target := by
  constructor
  · intro h
    unfold memberTarget? at h
    split at h
    · cases h
    · next t hkind =>
      obtain ⟨rfl, hinside⟩ := Option.filter_eq_some_iff.mp h
      exact .named hkind hinside
    · next hwild hname =>
      cases h
      refine .declared ?_
      unfold Node.isReexport
      split
      · next t wildcard hkind =>
        cases wildcard with
        | true => exact absurd hkind (hwild t)
        | false => exact absurd hkind (hname t)
      · rfl
  · rintro (hre | ⟨hkind, hinside⟩)
    · exact memberTarget?_of_not_isReexport hre
    · rw [memberTarget?, hkind]
      exact Option.filter_eq_some_iff.mpr ⟨rfl, hinside⟩

theorem isOffered_iff {c : Node} :
    isOffered c = true ↔ c.isModule = false ∧ c.name.toList.head? ≠ some '_' := by
  simp [isOffered, and_comm]

/-- The entries of the members that a re-export of everything offers. -/
theorem filterMap_entry?_ofMembers (root path : String) (source : Node) :
    (ofMembers root path source).filterMap entry? =
      source.children.filterMap fun c =>
        if isOffered c then
          (memberTarget? root c).map fun t => (DottedPath.child path c.name, t)
        else none := by
  rw [ofMembers, List.filterMap_filterMap, List.filterMap_filter]
  refine List.filterMap_congr fun c _ => ?_
  cases memberTarget? root c <;> rfl

theorem isLast_ofMembers (hs : s.Sound) {source : Node} (hsource : source ∈ s.nodes)
    (hmodule : source.isModule = true) (hkind : a.info.kind = .reexport (some source.path) true)
    (key : String) :
    Dict.IsLast (fun k t => Binds s m a k key t)
      ((Dict.ofList ((ofMembers s.rootName m.path source).filterMap entry?)).get? key) := by
  rw [filterMap_entry?_ofMembers]
  refine (Dict.isLast_ofList_filterMap _ _ _).congr fun k t => ?_
  constructor
  · rintro (⟨h, -⟩ | @⟨source', c, k, t, hkind', hsource', hmodule', hc, hother, hpublic, hstands⟩)
    · rw [hkind] at h
      cases h
    · rw [hkind] at hkind'
      injection hkind' with hpath
      obtain rfl := hs.eq_of_path hsource hsource' (Option.some.inj hpath)
      refine ⟨c, hc, ?_⟩
      rw [if_pos (isOffered_iff.mpr ⟨hother, hpublic⟩), memberTarget?_eq_some_iff.mpr hstands]
      rfl
  · rintro ⟨c, hc, h⟩
    split at h
    · next hoffered =>
      obtain ⟨t', ht, heq⟩ := Option.map_eq_some_iff.mp h
      obtain ⟨rfl, rfl⟩ := Prod.mk.inj heq
      obtain ⟨hother, hpublic⟩ := isOffered_iff.mp hoffered
      exact .member hkind hsource hmodule hc hother hpublic (memberTarget?_eq_some_iff.mp ht)
    · cases h

/-- The re-export has no usable target: it has none at all, or it is that of everything of a path
inside the project at which there is no module. -/
def LacksTarget (s : Snapshot) (a : Node) : Prop :=
  (∃ wildcard, a.info.kind = .reexport none wildcard) ∨
    ∃ target, a.info.kind = .reexport (some target) true ∧
      DottedPath.isInternal s.rootName target = true ∧
      ∀ n ∈ s.nodes, n.isModule = true → n.path ≠ target

theorem LacksTarget.not_binds (h : LacksTarget s a) {k : ℕ} {key target : String} :
    ¬ Binds s m a k key target := by
  rintro (⟨hkind, -⟩ | ⟨hkind, hsource, hmodule, -, -, -, -⟩)
  · rcases h with ⟨wildcard, h⟩ | ⟨t, h, -⟩ <;> (rw [hkind] at h; cases h)
  · rcases h with ⟨wildcard, h⟩ | ⟨t, h, -, hnone⟩
    · rw [hkind] at h
      cases h
    · rw [hkind] at h
      injection h with hpath
      exact hnone _ hsource hmodule (Option.some.inj hpath)

/-- A module of the snapshot is found under its path, and nothing else is found as a module. -/
theorem find?_filter_isModule_eq_some_iff (hs : s.Sound) {path : String} {source : Node} :
    (s.find? path).filter Node.isModule = some source ↔
      source ∈ s.nodes ∧ source.isModule = true ∧ source.path = path := by
  rw [Option.filter_eq_some_iff]
  constructor
  · rintro ⟨hfind, hmodule⟩
    exact ⟨List.mem_of_find?_eq_some hfind, hmodule, by simpa using List.find?_some hfind⟩
  · rintro ⟨hmem, hmodule, rfl⟩
    exact ⟨hs.find?_path hmem, hmodule⟩

/-- What a member of a module amounts to: a fault, a binding, the bindings of what another module
offers, or nothing. -/
theorem ofNode_cases (hs : s.Sound) (m a : Node) :
    (LacksTarget s a ∧ ofNode s m a = [fault a.path]) ∨
    (∃ target, a.info.kind = .reexport (some target) false ∧
      DottedPath.isInternal s.rootName target = true ∧
      ofNode s m a = [binding (DottedPath.child m.path a.name) target]) ∨
    (∃ source ∈ s.nodes, source.isModule = true ∧
      a.info.kind = .reexport (some source.path) true ∧
      ofNode s m a = ofMembers s.rootName m.path source) ∨
    (¬ LacksTarget s a ∧ (∀ k key target, ¬ Binds s m a k key target) ∧ ofNode s m a = []) := by
  by_cases hre : ∃ target wildcard, a.info.kind = .reexport target wildcard
  · obtain ⟨_ | target, wildcard, hkind⟩ := hre
    · exact Or.inl ⟨Or.inl ⟨wildcard, hkind⟩, by rw [ofNode, hkind]⟩
    · cases hinside : DottedPath.isInternal s.rootName target with
      | false =>
        refine Or.inr (Or.inr (Or.inr ⟨?_, ?_, by simp [ofNode, hkind, hinside]⟩))
        · rintro (⟨_, h⟩ | ⟨t, h, hin, -⟩) <;> rw [hkind] at h <;> cases h
          rw [hinside] at hin
          cases hin
        · rintro k key t (⟨h, hin⟩ | ⟨h, hsource, -, -, -, -, -⟩) <;> rw [hkind] at h <;> cases h
          · rw [hinside] at hin
            cases hin
          · rw [hs.isInternal_path hsource] at hinside
            cases hinside
      | true =>
        cases wildcard with
        | false => exact Or.inr (Or.inl ⟨target, hkind, hinside, by simp [ofNode, hkind, hinside]⟩)
        | true =>
          cases hfind : (s.find? target).filter Node.isModule with
          | none =>
            refine Or.inl ⟨Or.inr ⟨target, hkind, hinside, ?_⟩, by
              simp [ofNode, hkind, hinside, hfind]⟩
            intro n hn hmodule hpath
            rw [(find?_filter_isModule_eq_some_iff hs).mpr ⟨hn, hmodule, hpath⟩] at hfind
            cases hfind
          | some source =>
            obtain ⟨hsource, hmodule, rfl⟩ := (find?_filter_isModule_eq_some_iff hs).mp hfind
            exact Or.inr (Or.inr (Or.inl
              ⟨source, hsource, hmodule, hkind, ofNode_wildcard hs hsource hmodule hkind⟩))
  · have hfalse : a.isReexport = false := by
      unfold Node.isReexport
      split
      · next target wildcard hkind => exact absurd ⟨target, wildcard, hkind⟩ hre
      · rfl
    refine Or.inr (Or.inr (Or.inr ⟨?_, ?_, ofNode_of_not_isReexport hfalse⟩))
    · rintro (⟨wildcard, h⟩ | ⟨target, h, -⟩) <;> exact hre ⟨_, _, h⟩
    · rintro k key target (⟨h, -⟩ | ⟨h, -, -, -, -, -, -⟩) <;> exact hre ⟨_, _, h⟩

/-- What a re-export binds: the last of its bindings of a path counts. -/
theorem isLast_ofNode (hs : s.Sound) (m a : Node) (key : String) :
    Dict.IsLast (fun k t => Binds s m a k key t)
      ((Dict.ofList ((ofNode s m a).filterMap entry?)).get? key) := by
  rcases ofNode_cases hs m a with ⟨hlacks, h⟩ | ⟨target, hkind, hinside, h⟩ |
    ⟨source, hsource, hmodule, hkind, h⟩ | ⟨-, hnone, h⟩
  · rw [h]
    exact fun k t => hlacks.not_binds
  · have hname : ∀ k t, Binds s m a k key t ↔
        k = 0 ∧ DottedPath.child m.path a.name = key ∧ target = t := by
      intro k t
      constructor
      · rintro (⟨h, -⟩ | ⟨h, -, -, -, -, -, -⟩) <;> rw [hkind] at h <;> cases h
        exact ⟨rfl, rfl, rfl⟩
      · rintro ⟨rfl, rfl, rfl⟩
        exact .name hkind hinside
    rw [h]
    by_cases hkey : DottedPath.child m.path a.name = key
    · simp [Dict.get?_ofList, entry?, Dict.IsLast, hname, hkey]
    · simp [Dict.get?_ofList, entry?, Dict.IsLast, hname, hkey]
  · rw [h]
    exact isLast_ofMembers hs hsource hmodule hkind key
  · rw [h]
    exact fun k t => hnone k key t

theorem mem_ofNode_fault_iff (hs : s.Sound) {path : String} :
    fault path ∈ ofNode s m a ↔ LacksTarget s a ∧ a.path = path := by
  rcases ofNode_cases hs m a with ⟨hlacks, h⟩ | ⟨target, hkind, -, h⟩ |
    ⟨source, hsource, hmodule, hkind, h⟩ | ⟨hnot, -, h⟩
  · rw [h, List.mem_singleton, fault.injEq]
    exact ⟨fun hpath => ⟨hlacks, hpath.symm⟩, fun hpath => hpath.2.symm⟩
  · rw [h]
    simp [LacksTarget, hkind]
  · rw [h]
    constructor
    · intro hmem
      simp [ofMembers] at hmem
    · rintro ⟨⟨wildcard, hk⟩ | ⟨t, hk, -, hnone⟩, -⟩ <;> rw [hkind] at hk <;> cases hk
      exact absurd rfl (hnone source hsource hmodule)
  · rw [h]
    simp [hnot]

theorem Binds.isInternal (hs : s.Sound) {k : ℕ} {key target : String}
    (h : Binds s m a k key target) : DottedPath.isInternal s.rootName target = true := by
  cases h with
  | name _ hinside => exact hinside
  | member _ hsource _ hc _ _ hstands =>
    cases hstands with
    | declared _ =>
      exact hs.isInternal_path (Snapshot.child_mem_nodes hsource (List.mem_of_getElem? hc))
    | named _ hinside => exact hinside

end Reexport

/-! ## The map -/

namespace Snapshot

variable {s : Snapshot}

/-- The path is bound to the target at a place: by the re-export at position `j` of the module at
position `i` of the pre-order, and there at position `k`. A place comes before another if its module
does, then if its re-export does. -/
inductive BindsAt (s : Snapshot) : ℕ ×ₗ ℕ ×ₗ ℕ → String → String → Prop
  | intro {i j k : ℕ} {m a : Node} {key target : String} (hm : s.nodes[i]? = some m)
      (hreach : s.Reaches m) (ha : m.children[j]? = some a)
      (hbinds : Reexport.Binds s m a k key target) :
      s.BindsAt (toLex (i, toLex (j, k))) key target

/-- The last binding of the path is that to the target. -/
def LastBinding (s : Snapshot) (key target : String) : Prop :=
  ∃ place, s.BindsAt place key target ∧
    ∀ place' target', s.BindsAt place' key target' → place' ≤ place

/-- The path is that of a re-export, in a module that is reached, that has no usable target. -/
def Unresolved (s : Snapshot) (path : String) : Prop :=
  ∃ m a, s.Reaches m ∧ a ∈ m.children ∧ Reexport.LacksTarget s a ∧ a.path = path

open Classical in
/-- Of the bindings of all re-exports the one at the last place counts. -/
theorem Sound.isLast_modules (hs : s.Sound) (key : String) :
    Dict.IsLast (fun place target => s.BindsAt place key target)
      ((Dict.ofList ((Reexport.ofWalk s s.modules).filterMap Reexport.entry?)).get? key) := by
  have hmembers : ∀ m : Node, Reexport.entriesOf s m =
      m.children.flatMap fun a => (Reexport.ofNode s m a).filterMap Reexport.entry? := fun m =>
    List.filterMap_flatMap
  have hmodules : (Reexport.ofWalk s s.modules).filterMap Reexport.entry? =
      s.nodes.flatMap fun n => if s.Reaches n then Reexport.entriesOf s n else [] := by
    rw [Reexport.filterMap_entry?_ofWalk, ← List.flatMap_map, hs.map_module_modules,
      flatMap_filter]
    simp only [decide_eq_true_eq]
  have hmodule : ∀ m ∈ s.nodes, Dict.IsLast
      (fun (p : ℕ ×ₗ ℕ) target => s.Reaches m ∧
        ∃ a, m.children[(ofLex p).1]? = some a ∧ Reexport.Binds s m a (ofLex p).2 key target)
      ((Dict.ofList (if s.Reaches m then Reexport.entriesOf s m else [])).get? key) := by
    intro m _
    split
    · next hreach =>
      rw [hmembers]
      refine (Dict.isLast_ofList_flatMap fun a _ => Reexport.isLast_ofNode hs m a key).congr ?_
      exact fun p target => and_iff_right hreach
    · next hreach => exact fun p target h => hreach h.1
  rw [hmodules]
  refine (Dict.isLast_ofList_flatMap hmodule).congr fun place target => ?_
  constructor
  · rintro ⟨hm, hreach, ha, hbinds⟩
    exact ⟨_, hm, hreach, _, ha, hbinds⟩
  · rintro ⟨m, hm, hreach, a, ha, hbinds⟩
    exact .intro hm hreach ha hbinds

/-- A re-export is reported exactly if it has no usable target. -/
theorem Sound.mem_findings_modules_iff (hs : s.Sound) {f : Finding} :
    f ∈ (Reexport.ofWalk s s.modules).filterMap Reexport.finding? ↔
      ∃ path, f = .error path Reexport.unresolved ∧ s.Unresolved path := by
  simp only [Reexport.ofWalk, List.mem_filterMap, List.mem_flatMap]
  constructor
  · rintro ⟨r, ⟨v, hv, a, ha, hr⟩, hf⟩
    cases r with
    | binding _ _ => cases hf
    | fault path =>
      obtain ⟨hlacks, hpath⟩ := (Reexport.mem_ofNode_fault_iff hs).mp hr
      have hreach := mem_map_module_modules_iff.mp (List.mem_map_of_mem hv)
      exact ⟨path, (Option.some.inj hf).symm, v.module, a, hreach, ha, hlacks, hpath⟩
  · rintro ⟨path, rfl, m, a, hreach, ha, hlacks, hpath⟩
    obtain ⟨v, hv, rfl⟩ := List.mem_map.mp (mem_map_module_modules_iff.mpr hreach)
    exact ⟨_, ⟨v, hv, a, ha, (Reexport.mem_ofNode_fault_iff hs).mpr ⟨hlacks, hpath⟩⟩, rfl⟩

end Snapshot

/-! ## The report -/

namespace Diagnostics

/-- The diagnostics have gained a description of the symbols at some paths and nothing else. -/
structure Gains (before after : Diagnostics) (text : String) (faulty : String → Prop) : Prop where
  symbols : ∀ path, after.errors.contains path = true ↔
    before.errors.contains path = true ∨ faulty path
  descriptions : ∀ path t, (described after.errors path).contains t = true ↔
    (described before.errors path).contains t = true ∨ faulty path ∧ text = t
  names : ∀ bin : NameBin, bin.names after = bin.names before
  links : after.unresolvedLinks = before.unresolvedLinks

theorem gains_recordAll (d : Diagnostics) {fs : List Finding} {text : String}
    {faulty : String → Prop} (hfs : ∀ f, f ∈ fs ↔ ∃ path, f = .error path text ∧ faulty path) :
    d.Gains (d.recordAll fs) text faulty := by
  have hentries : ∀ e, e ∈ fs.filterMap errorOf? ↔
      faulty e.1 ∧ e.2 = NameSet.ofNames [text] := by
    rintro ⟨path, names⟩
    simp only [List.mem_filterMap, hfs]
    constructor
    · rintro ⟨_, ⟨p, rfl, hp⟩, he⟩
      cases he
      exact ⟨hp, rfl⟩
    · rintro ⟨hp, rfl⟩
      exact ⟨_, ⟨path, rfl, hp⟩, rfl⟩
  have htext : ∀ t, (NameSet.ofNames [text]).contains t = true ↔ text = t := by
    intro t
    rw [NameSet.ofNames, Dict.contains_ofList_iff]
    simp [eq_comm]
  refine ⟨fun path => ?_, fun path t => ?_, fun bin => ?_, ?_⟩
  · rw [errors_recordAll, contains_foldl_addErrors]
    simp [hentries]
  · rw [errors_recordAll, described_foldl_addErrors]
    refine or_congr_right ⟨?_, ?_⟩
    · rintro ⟨e, he, rfl, ht⟩
      obtain ⟨hp, hnames⟩ := (hentries e).mp he
      rw [hnames, htext] at ht
      exact ⟨hp, ht⟩
    · rintro ⟨hp, ht⟩
      exact ⟨(path, _), (hentries _).mpr ⟨hp, rfl⟩, rfl, (htext t).mpr ht⟩
  · apply NameSet.ext_contains
    intro x
    rw [contains_recordAll, or_iff_left]
    rintro ⟨f, hf, hname⟩
    obtain ⟨path, rfl, -⟩ := (hfs f).mp hf
    cases bin <;> cases hname
  · have hnone : fs.filterMap linkOf? = [] := by
      rw [List.filterMap_eq_nil_iff]
      intro f hf
      obtain ⟨path, rfl, -⟩ := (hfs f).mp hf
      rfl
    rw [unresolvedLinks_recordAll, hnone]
    rfl

end Diagnostics

namespace ReexportMap

variable {s : Snapshot}

theorem build_eq_ok {limit : ℕ} (hdepth : s.moduleDepth ≤ limit) :
    build s limit = .ok
      ⟨Dict.ofList ((Reexport.ofWalk s s.modules).filterMap Reexport.entry?),
        (Reexport.ofWalk s s.modules).filterMap Reexport.finding?⟩ := by
  have hnone : Visit.tooDeep? limit s.modules = none := by
    rw [Visit.tooDeep?, List.find?_eq_none]
    intro v hv
    obtain ⟨k, hbelow, hk⟩ := Node.mem_walkFrom_iff.mp hv
    have hle : k ≤ s.moduleDepth := s.isGreatest_moduleDepth.2 ⟨v.module, hbelow⟩
    simp only [decide_eq_true_eq, not_lt]
    omega
  rw [build, Visit.guard, hnone]
  rfl

/-- The map of a snapshot whose modules do not nest too deep accounts for every re-export of a
module that is reached. A path stands for what its last binding binds it to, and that lies inside
the project. The re-exports without a usable target are reported, and nothing else is. -/
theorem build_accounts {d : Declaration} (hload : Snapshot.load d = .ok s) {limit : ℕ}
    (hdepth : s.moduleDepth ≤ limit) :
    ∃ map, build s limit = .ok map ∧
      (∀ key target, map.value.get? key = some target ↔ s.LastBinding key target) ∧
      (∀ key target, map.value.get? key = some target →
        DottedPath.isInternal s.rootName target = true) ∧
      ∀ before : Diagnostics,
        before.Gains (before.recordAll map.findings) Reexport.unresolved s.Unresolved := by
  have hs := Snapshot.Sound.of_load hload
  refine ⟨_, build_eq_ok hdepth, fun key target => (hs.isLast_modules key).eq_some_iff, ?_, ?_⟩
  · intro key target hget
    obtain ⟨place, ⟨-, -, -, hbinds⟩, -⟩ := (hs.isLast_modules key).eq_some_iff.mp hget
    exact hbinds.isInternal hs
  · exact fun before => before.gains_recordAll fun f => hs.mem_findings_modules_iff

/-- A package that binds a path in its file `over`, where everything of the file `core` is
re-exported; the class of `core` has the same name. Another re-export of the package has no
target. -/
def reboundPackage : Declaration :=
  .mk { DeclFields.named .module "p" with
      filepath := some "p/__init__.py", docstring := some "Root." }
    [.mk { DeclFields.named .reexport "over.X" with target := some "p.core.Y" } [],
      .mk (DeclFields.named .reexport "lost") [],
      Project.fileOf "core"
        [.mk { DeclFields.named .classType "X" with docstring := some "A class." } [],
          .mk { DeclFields.named .reexport "Y" with target := some "p.core.X" } []],
      Project.fileOf "over" [Project.everythingOf "p.core"]]

/-- The binding of the file counts, since the file comes after the package. -/
theorem reboundPackage_accounted :
    ∃ s map, Snapshot.load reboundPackage = .ok s ∧ s.moduleDepth ≤ 1 ∧ build s 1 = .ok map ∧
      map.value.get? "p.over.X" = some "p.core.X" ∧ s.LastBinding "p.over.X" "p.core.X" ∧
      map.value.get? "p.over.Y" = some "p.core.X" ∧ s.LastBinding "p.over.Y" "p.core.X" ∧
      s.Unresolved "p.lost" := by
  have hdepth : Snapshot.moduleDepth ⟨Node.ofDeclaration reboundPackage⟩ ≤ 1 := by decide +kernel
  have hbuild := build_eq_ok hdepth
  obtain ⟨map, hmap, hlast, -, hgains⟩ := build_accounts (d := reboundPackage) rfl hdepth
  obtain rfl := Except.ok.inj (hmap.symm.trans hbuild)
  have hX := by
    refine (hlast "p.over.X" "p.core.X").mp ?_
    decide +kernel
  have hY := by
    refine (hlast "p.over.Y" "p.core.X").mp ?_
    decide +kernel
  have hlost := by
    refine ((hgains .empty).symbols "p.lost").mp ?_
    decide +kernel
  exact ⟨_, _, rfl, hdepth, hbuild, (hlast _ _).mpr hX, hX, (hlast _ _).mpr hY, hY,
    hlost.resolve_left (by decide)⟩

end ReexportMap

end ApiPages
