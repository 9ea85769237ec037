import ApiPages.Proofs.Tables
import ApiPages.Proofs.Walks
import Mathlib.Order.Bounds.Basic

/-!
# The depth limit

The modules of a snapshot may nest as deep as the settings say. Two walks are held against the
limit, that over the documented packages and that over all modules. A walk that goes below the limit
crosses it one step at a time, so the first module it visits there lies just below it.

Results:

* `Snapshot.isGreatest_moduleDepth`: `Snapshot.moduleDepth` is the length of the longest chain of
  nested modules.
* `Node.find?_walkFrom`: the first module of a walk below the limit is the first one just below it.
* `Project.build_eq_error_iff`: the only failure of building a project, and its path.
* `Snapshot.isSome_firstTooDeep?_iff`: when there is such a failure.
-/

namespace ApiPages

/-- The first module of a walk at a depth. -/
def Visit.firstAt? (depth : Nat) (walk : List Visit) : Option Visit :=
  walk.find? fun v => v.depth == depth

namespace Snapshot

/-- The largest number of steps from the root to a module, each step from a module to one of its
members. -/
def moduleDepth (s : Snapshot) : Nat := (s.modules.map Visit.depth).max?.getD 0

/-- The module that is reported if modules lie below the limit: the first one just below it, among
the documented packages if there is one there. -/
def firstTooDeep? (s : Snapshot) (limit : Nat) : Option Visit :=
  (Visit.firstAt? (limit + 1) s.pages).or (Visit.firstAt? (limit + 1) s.modules)

end Snapshot

/-! ## Chains of modules -/

theorem findSome?_congr {α β : Type} {f g : α → Option β} {xs : List α}
    (h : ∀ x ∈ xs, f x = g x) : xs.findSome? f = xs.findSome? g := by
  induction xs with
  | nil => rfl
  | cons x xs ih =>
    rw [List.findSome?_cons, List.findSome?_cons, h x List.mem_cons_self,
      ih fun y hy => h y (List.mem_cons_of_mem x hy)]

namespace Node

/-- A chain of steps passes all smaller depths. -/
theorem Below.exists_of_le {keep : Node → Bool} {top n : Node} {j k : Nat}
    (h : top.Below keep k n) (hle : j ≤ k) : ∃ m, top.Below keep j m := by
  induction h with
  | self =>
    obtain rfl : j = 0 := by omega
    exact ⟨top, .self⟩
  | @step k n c h hc hkeep ih =>
    by_cases hj : j = k + 1
    · subst hj
      exact ⟨c, .step h hc hkeep⟩
    · exact ih (by omega)

theorem isModule_of_isDocumentedPackage {n : Node} (h : Contents.isDocumentedPackage n = true) :
    n.isModule = true :=
  isModule_of_isPackage (Bool.and_eq_true_iff.mp h).1

/-- The first module of a walk below the limit lies just below it. -/
theorem find?_walkFrom {keep : Node → Bool} {limit depth : Nat} {t : Node}
    (h : depth ≤ limit + 1) :
    (t.walkFrom keep depth).find? (fun v => decide (limit < v.depth)) =
      Visit.firstAt? (limit + 1) (t.walkFrom keep depth) := by
  unfold Visit.firstAt?
  induction t using Node.induct generalizing depth with
  | mk i cs ih =>
    rw [walkFrom_mk]
    by_cases htop : depth = limit + 1
    · rw [List.find?_cons_of_pos (by simp; omega), List.find?_cons_of_pos (by simp; omega)]
    · -- both searches go on among the members, where the depth is one more
      rw [List.find?_cons_of_neg (by simp; omega), List.find?_cons_of_neg (by simp; omega),
        List.find?_flatMap, List.find?_flatMap]
      exact findSome?_congr fun c hc => ih c (List.mem_filter.mp hc).1 (by omega)

end Node

namespace Snapshot

variable {s : Snapshot}

theorem isGreatest_moduleDepth (s : Snapshot) :
    IsGreatest {k | ∃ n, s.root.Below Node.isModule k n} s.moduleDepth := by
  have hvisits : ∀ k, k ∈ s.modules.map Visit.depth ↔ ∃ n, s.root.Below Node.isModule k n := by
    intro k
    simp only [List.mem_map, modules, Node.mem_walkFrom_iff]
    constructor
    · rintro ⟨v, ⟨j, hv, hdepth⟩, rfl⟩
      obtain rfl : v.depth = j := by omega
      exact ⟨v.module, hv⟩
    · rintro ⟨n, hn⟩
      exact ⟨⟨k, n⟩, ⟨k, hn, by simp⟩, rfl⟩
  have hsome : (s.modules.map Visit.depth).max? = some s.moduleDepth := by
    unfold moduleDepth
    cases hmax : (s.modules.map Visit.depth).max? with
    | none =>
      rw [List.max?_eq_none_iff] at hmax
      have hroot := (hvisits 0).mpr ⟨s.root, .self⟩
      rw [hmax] at hroot
      cases hroot
    | some k => rfl
  obtain ⟨hmem, hle⟩ := List.max?_eq_some_iff.mp hsome
  constructor
  · exact (hvisits _).mp hmem
  · rintro k hk
    exact hle k ((hvisits k).mpr hk)

/-! ## The reported module -/

theorem tooDeep?_pages (s : Snapshot) (limit : Nat) :
    Visit.tooDeep? limit s.pages = Visit.firstAt? (limit + 1) s.pages :=
  Node.find?_walkFrom (Nat.zero_le _)

theorem tooDeep?_modules (s : Snapshot) (limit : Nat) :
    Visit.tooDeep? limit s.modules = Visit.firstAt? (limit + 1) s.modules :=
  Node.find?_walkFrom (Nat.zero_le _)

/-- The reported module lies just below the limit. -/
theorem depth_of_firstTooDeep? {limit : Nat} {v : Visit} (h : s.firstTooDeep? limit = some v) :
    v.depth = limit + 1 := by
  unfold firstTooDeep? Visit.firstAt? at h
  rw [Option.or_eq_some_iff] at h
  rcases h with h | ⟨-, h⟩
  · simpa using List.find?_some h
  · simpa using List.find?_some h

/-- A module is reported exactly if the modules nest deeper than the limit. -/
theorem isSome_firstTooDeep?_iff {limit : Nat} :
    (s.firstTooDeep? limit).isSome = true ↔ limit < s.moduleDepth := by
  obtain ⟨⟨n, hn⟩, hgreatest⟩ := s.isGreatest_moduleDepth
  rw [firstTooDeep?, Option.isSome_or, Bool.or_eq_true]
  simp only [Visit.firstAt?, List.find?_isSome, beq_iff_eq, pages, modules, Node.mem_walkFrom_iff]
  constructor
  · -- documented packages are modules, so both walks lead to a chain of modules
    intro h
    have hchain : ∃ v : Visit, s.root.Below Node.isModule (limit + 1) v.module := by
      rcases h with ⟨v, ⟨k, hv, hk⟩, hdepth⟩ | ⟨v, ⟨k, hv, hk⟩, hdepth⟩
      · obtain rfl : k = limit + 1 := by omega
        exact ⟨v, hv.mono fun _ => Node.isModule_of_isDocumentedPackage⟩
      · obtain rfl : k = limit + 1 := by omega
        exact ⟨v, hv⟩
    obtain ⟨v, hv⟩ := hchain
    have hle : limit + 1 ≤ s.moduleDepth := hgreatest ⟨v.module, hv⟩
    omega
  · intro hlt
    obtain ⟨m, hm⟩ := hn.exists_of_le (j := limit + 1) (by omega)
    exact Or.inr ⟨⟨limit + 1, m⟩, ⟨limit + 1, hm, by simp⟩, rfl⟩

end Snapshot

/-! ## Building -/

namespace Project

variable {s : Snapshot} {settings : Settings}

/-- The only failure of building a project is a module that lies too deep. -/
theorem build_eq_error_iff {f : Failure} :
    build s settings = .error f ↔
      ∃ v, s.firstTooDeep? settings.maxDepth = some v ∧
        f = .tooDeep v.module.path settings.maxDepth := by
  unfold build SymbolTable.build ReexportMap.build Visit.guard Snapshot.firstTooDeep?
  rw [s.tooDeep?_pages, s.tooDeep?_modules]
  cases hpages : Visit.firstAt? (settings.maxDepth + 1) s.pages with
  | some v =>
    simp only [Except.map, bind, Except.bind, Option.some_or, Option.some.injEq, Except.error.injEq]
    exact ⟨fun h => ⟨v, rfl, h.symm⟩, fun ⟨_, hv, hf⟩ => by rw [hv]; exact hf.symm⟩
  | none =>
    cases hmodules : Visit.firstAt? (settings.maxDepth + 1) s.modules with
    | some v =>
      simp only [Except.map, bind, Except.bind, Option.none_or, Option.some.injEq,
        Except.error.injEq]
      exact ⟨fun h => ⟨v, rfl, h.symm⟩, fun ⟨_, hv, hf⟩ => by rw [hv]; exact hf.symm⟩
    | none =>
      simp [Except.map, bind, Except.bind, pure, Except.pure]

/-- The pages of a project that was built do not nest deeper than the limit. -/
theorem depth_le_of_build {p : Noted Project} (h : build s settings = .ok p) {v : Visit}
    (hv : v ∈ s.pages) : v.depth ≤ settings.maxDepth := by
  by_contra hlt
  have hdeep : settings.maxDepth < s.moduleDepth := by
    obtain ⟨k, hbelow, hdepth⟩ := Node.mem_walkFrom_iff.mp hv
    have hmodule : s.root.Below Node.isModule k v.module :=
      hbelow.mono fun _ => Node.isModule_of_isDocumentedPackage
    have hle : k ≤ s.moduleDepth := s.isGreatest_moduleDepth.2 ⟨v.module, hmodule⟩
    omega
  obtain ⟨w, hw⟩ := Option.isSome_iff_exists.mp (Snapshot.isSome_firstTooDeep?_iff.mpr hdeep)
  rw [build_eq_error_iff.mpr ⟨w, hw, rfl⟩] at h
  cases h

end Project

end ApiPages
