import ApiPages.Proofs.ReexportChains
import Mathlib.Order.Bounds.Basic
import Mathlib.Data.Nat.Find

/-!
# Trails of re-exports

From a path the map of re-exports leads to what the path stands for, from there to what that stands
for, and so on, for ever if the trail comes back to itself. A path is resolved by walking a bounded
number of steps of its trail and stopping at the first symbol. No symbol is met for the first time
after more steps than the map has entries, so a larger bound changes nothing, whatever the map is.

Results:

* `Project.exists_chain_iff`: the chain of a path is its trail up to the first symbol.
* `Project.follow_eq_of_le`: with as many hops as there are re-exports more of them change nothing.
* `Project.navigationOf_trail`: what the resolution of a path finds, for every bound.
-/

namespace ApiPages

namespace ReexportMap

/-- The path after `k` steps from re-export to target. -/
def trail (m : ReexportMap) (path : String) : (k : Nat) → Option String
  | 0 => some path
  | k + 1 => (m.trail path k).bind m.get?

/-- The trail of a path goes on as the trail of its target. -/
theorem trail_succ (m : ReexportMap) (path : String) (k : Nat) :
    m.trail path (k + 1) = (m.get? path).bind fun q => m.trail q k := by
  induction k with
  | zero =>
    rw [trail, trail, Option.bind_some]
    exact (Option.bind_fun_some (m.get? path)).symm
  | succ k ih =>
    rw [trail, ih, Option.bind_assoc]
    rfl

end ReexportMap

namespace Project

variable {p : Project} {path q : String} {r : SymbolRef} {k : Nat}

/-- The trail of a path is at a symbol after `k` steps: at a path whose part below the root is in
the symbol table. -/
def SymbolAfter (p : Project) (path : String) (k : Nat) (r : SymbolRef) : Prop :=
  ∃ q, p.reexports.trail path k = some q ∧
    p.symbols.get? (DottedPath.relativeTo p.rootName q) = some r

theorem symbolAfter_zero : p.SymbolAfter path 0 r ↔ p.symbolAt path = some r := by
  constructor
  · rintro ⟨q, hq, hr⟩
    cases hq
    exact hr
  · intro hr
    exact ⟨path, rfl, hr⟩

theorem symbolAfter_succ :
    p.SymbolAfter path (k + 1) r ↔ ∃ q, p.reexports.get? path = some q ∧ p.SymbolAfter q k r := by
  unfold SymbolAfter
  rw [ReexportMap.trail_succ]
  constructor
  · rintro ⟨x, hx, hr⟩
    obtain ⟨q, hq, hx⟩ := Option.bind_eq_some_iff.mp hx
    exact ⟨q, hq, x, hx, hr⟩
  · rintro ⟨q, hq, x, hx, hr⟩
    exact ⟨x, Option.bind_eq_some_iff.mpr ⟨q, hq, hx⟩, hr⟩

/-- The chain of a path is its trail up to the first symbol. -/
theorem exists_chain_iff :
    (∃ hops, p.Chain path hops r ∧ hops.length = k) ↔
      p.SymbolAfter path k r ∧ ∀ j < k, ∀ r', ¬p.SymbolAfter path j r' := by
  induction k generalizing path with
  | zero =>
    rw [symbolAfter_zero]
    constructor
    · rintro ⟨hops, hchain, hlen⟩
      cases hchain with
      | here hr => exact ⟨hr, fun j hj => absurd hj (Nat.not_lt_zero j)⟩
      | hop _ _ _ => cases hlen
    · rintro ⟨hr, -⟩
      exact ⟨[], .here hr, rfl⟩
  | succ k ih =>
    rw [symbolAfter_succ]
    constructor
    · rintro ⟨hops, hchain, hlen⟩
      cases hchain with
      | here hr => cases hlen
      | hop hnone hq hchain =>
        obtain ⟨hafter, hfirst⟩ := ih.mp ⟨_, hchain, Nat.succ.inj hlen⟩
        refine ⟨⟨_, hq, hafter⟩, ?_⟩
        intro j hj r' hr'
        cases j with
        | zero => cases hnone.symm.trans (symbolAfter_zero.mp hr')
        | succ j =>
          obtain ⟨q', hq', hr'⟩ := symbolAfter_succ.mp hr'
          cases hq.symm.trans hq'
          exact hfirst j (Nat.lt_of_succ_lt_succ hj) r' hr'
    · rintro ⟨⟨q, hq, hafter⟩, hfirst⟩
      have hnone : p.symbolAt path = none := by
        rw [Option.eq_none_iff_forall_ne_some]
        intro r' hr'
        exact hfirst 0 (Nat.succ_pos k) r' (symbolAfter_zero.mpr hr')
      obtain ⟨hops, hchain, hlen⟩ := ih.mpr ⟨hafter, fun j hj r' hr' =>
        hfirst (j + 1) (Nat.succ_lt_succ hj) r' (symbolAfter_succ.mpr ⟨q, hq, hr'⟩)⟩
      exact ⟨path :: hops, .hop hnone hq hchain, by rw [List.length_cons, hlen]⟩

/-- The numbers of steps, up to a bound, after which the trail of a path is at a symbol. -/
def stepsToSymbols (p : Project) (path : String) (n : Nat) : Set Nat :=
  {k | k ≤ n ∧ ∃ r, p.SymbolAfter path k r}

/-- What is found after at most `n` hops is the first symbol of the trail, if it is met by then. -/
theorem follow_eq_some_iff_isLeast {n : Nat} {v : String} :
    p.follow path n = some v ↔
      ∃ k r, IsLeast (p.stepsToSymbols path n) k ∧ p.SymbolAfter path k r ∧ r.navigation = v := by
  rw [follow_eq_some_iff]
  constructor
  · rintro ⟨hops, r, hchain, hlen, rfl⟩
    obtain ⟨hafter, hfirst⟩ := exists_chain_iff.mp ⟨hops, hchain, rfl⟩
    refine ⟨hops.length, r, ⟨⟨hlen, r, hafter⟩, ?_⟩, hafter, rfl⟩
    rintro j ⟨-, r', hr'⟩
    exact Nat.le_of_not_lt fun hj => hfirst j hj r' hr'
  · rintro ⟨k, r, ⟨⟨hk, -⟩, hleast⟩, hafter, rfl⟩
    obtain ⟨hops, hchain, rfl⟩ := exists_chain_iff.mpr ⟨hafter, fun j hj r' hr' =>
      Nat.not_lt_of_le (hleast ⟨by omega, r', hr'⟩) hj⟩
    exact ⟨hops, r, hchain, hk, rfl⟩

theorem follow_eq_none_iff {n : Nat} :
    p.follow path n = none ↔ p.stepsToSymbols path n = ∅ := by
  classical
  rw [Option.eq_none_iff_forall_ne_some, Set.eq_empty_iff_forall_notMem]
  constructor
  · intro h k hk
    have hex : ∃ j, j ∈ p.stepsToSymbols path n := ⟨k, hk⟩
    obtain ⟨-, r, hr⟩ := Nat.find_spec hex
    exact h r.navigation (follow_eq_some_iff_isLeast.mpr
      ⟨Nat.find hex, r, ⟨Nat.find_spec hex, fun j hj => Nat.find_min' hex hj⟩, hr, rfl⟩)
  · intro h v hv
    obtain ⟨k, r, hleast, -⟩ := follow_eq_some_iff_isLeast.mp hv
    exact h k hleast.1

/-- With as many hops as there are re-exports, more hops change nothing. -/
theorem follow_eq_of_le {n n' : Nat} (hsize : p.reexports.size ≤ n) (hle : n ≤ n') :
    p.follow path n' = p.follow path n := by
  apply Option.ext
  intro v
  rw [follow_eq_some_iff, follow_eq_some_iff]
  constructor
  · rintro ⟨hops, r, hchain, -, hnav⟩
    exact ⟨hops, r, hchain, Nat.le_trans hchain.length_le hsize, hnav⟩
  · rintro ⟨hops, r, hchain, hlen, hnav⟩
    exact ⟨hops, r, hchain, Nat.le_trans hlen hle, hnav⟩

/-- The project with another bound on the re-exports that are followed. -/
def withMaxDepth (p : Project) (n : Nat) : Project := { p with maxDepth := n }

/-- Following looks at the tables only. -/
theorem follow_withMaxDepth (p : Project) (n : Nat) (path : String) (hops : Nat) :
    (p.withMaxDepth n).follow path hops = p.follow path hops := by
  induction hops generalizing path with
  | zero => rfl
  | succ hops ih =>
    rw [follow, follow]
    simp only [ih]
    rfl

theorem navigationOf_withMaxDepth (p : Project) (n : Nat) (path : String) :
    (p.withMaxDepth n).navigationOf path = p.follow path n :=
  follow_withMaxDepth p n path n

/-- Resolution with a bound is exact, whatever the tables hold. A path leads to the first symbol of
its trail if that is met within the bound, and nowhere otherwise. A bound that is not below the
number of re-exports may be raised without any effect, also where trails run in circles. -/
theorem navigationOf_trail (p : Project) (n : Nat) (path : String) :
    (∀ v, (p.withMaxDepth n).navigationOf path = some v ↔
      ∃ k r, IsLeast (p.stepsToSymbols path n) k ∧ p.SymbolAfter path k r ∧ r.navigation = v) ∧
    ((p.withMaxDepth n).navigationOf path = none ↔ p.stepsToSymbols path n = ∅) ∧
    (p.reexports.size ≤ n → ∀ n', n ≤ n' →
      (p.withMaxDepth n').navigationOf path = (p.withMaxDepth n).navigationOf path) := by
  simp only [navigationOf_withMaxDepth]
  exact ⟨fun v => follow_eq_some_iff_isLeast, follow_eq_none_iff,
    fun hsize n' hle => follow_eq_of_le hsize hle⟩

/-- A package with two files that re-export a class from each other, with one that re-exports a
class from itself, and with two through which a class of a third one is re-exported. -/
def packageWithTrails : Declaration :=
  let reexport (file name target : String) : Declaration :=
    .mk { DeclFields.named .module file with filepath := some ("p/" ++ file ++ ".py") }
      [.mk { DeclFields.named .reexport name with target := some target } []]
  .mk { DeclFields.named .module "p" with
      filepath := some "p/__init__.py", docstring := some "Root." }
    [reexport "a" "X" "p.b.X", reexport "b" "X" "p.a.X", reexport "c" "Y" "p.c.Y",
      .mk { DeclFields.named .module "d" with filepath := some "p/d.py" }
        [.mk { DeclFields.named .classType "Z" with docstring := some "A class." } []],
      reexport "e" "Z" "p.d.Z", reexport "f" "Z" "p.e.Z"]

/-- The circles lead nowhere, however long they are followed. The class is found as soon as two
re-exports may be followed. -/
theorem packageWithTrails_navigation :
    ∃ project : Noted Project,
      Project.build ⟨Node.ofDeclaration packageWithTrails⟩
        { Settings.standard with useStandardLinks := false } = .ok project ∧
      project.value.reexports.size = 5 ∧
      (∀ n, 5 ≤ n → (project.value.withMaxDepth n).navigationOf "p.a.X" = none ∧
        (project.value.withMaxDepth n).navigationOf "p.c.Y" = none) ∧
      ∀ n, (project.value.withMaxDepth n).navigationOf "p.f.Z" = some "d.Z" ↔ 2 ≤ n := by
  obtain ⟨project, hbuild⟩ : ∃ project : Noted Project,
      Project.build ⟨Node.ofDeclaration packageWithTrails⟩
        { Settings.standard with useStandardLinks := false } = .ok project := ⟨_, rfl⟩
  have hsize : project.value.reexports.size = 5 := by
    cases hbuild
    decide +kernel
  have hchain : project.value.Chain "p.f.Z" ["p.f.Z", "p.e.Z"] ⟨.classType, "d.Z"⟩ := by
    cases hbuild
    exact .hop (q := "p.e.Z") (by decide +kernel) (by decide +kernel)
      (.hop (q := "p.d.Z") (by decide +kernel) (by decide +kernel) (.here (by decide +kernel)))
  obtain ⟨hafter, hfirst⟩ := exists_chain_iff.mp ⟨_, hchain, rfl⟩
  refine ⟨project, hbuild, hsize, ?_, ?_⟩
  · intro n hn
    have hnowhere : ∀ path ∈ ["p.a.X", "p.c.Y"],
        (project.value.withMaxDepth 5).navigationOf path = none := by
      cases hbuild
      decide +kernel
    rw [(navigationOf_trail _ 5 "p.a.X").2.2 (Nat.le_of_eq hsize) n hn,
      (navigationOf_trail _ 5 "p.c.Y").2.2 (Nat.le_of_eq hsize) n hn]
    exact ⟨hnowhere _ (by decide), hnowhere _ (by decide)⟩
  · intro n
    rw [(navigationOf_trail _ n "p.f.Z").1]
    constructor
    · rintro ⟨k, r, ⟨⟨hk, -⟩, -⟩, hr, -⟩
      exact (Nat.le_of_not_lt fun hlt => hfirst k hlt r hr).trans hk
    · intro hn
      refine ⟨2, _, ⟨⟨hn, _, hafter⟩, ?_⟩, hafter, rfl⟩
      rintro j ⟨-, r, hr⟩
      exact Nat.le_of_not_lt fun hlt => hfirst j hlt r hr

end Project

end ApiPages
