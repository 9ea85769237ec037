import ApiPages.Project

/-!
# Walking and checking at once

The tables of a project are made of walks that are finished first and held against the depth limit
afterwards. Here they are made by recursion instead: a module is held against the limit when it is
come to, then its entries are put into the table, and then the recursion goes on to its members. The
first module below the limit ends it. Both ways make the same tables, and end at the same module.

* `Node.gather` — the recursion, for any choice of members and any entries.
* `SymbolTable.gather`, `ReexportMap.gather` — the two tables.

Results:

* `Node.gather_eq_guard`: the recursion is the walk that is checked as a whole.
* `SymbolTable.build_eq_gather`, `ReexportMap.build_eq_gather`: the tables by recursion.
* `Project.gather_of_build`: the tables of a project.
-/

namespace ApiPages

/-! ## The recursion -/

namespace Visit

variable {σ : Type}

/-- Adds the module of a visit to what is gathered, unless it lies below the limit. -/
def check (limit : Nat) (add : σ → Node → σ) (st : σ) (v : Visit) : Except Failure σ :=
  if limit < v.depth then .error (.tooDeep v.module.path limit) else .ok (add st v.module)

/-- A walk that is checked step by step is one that is checked as a whole. -/
theorem foldlM_check (limit : Nat) (add : σ → Node → σ) (walk : List Visit) (st : σ) :
    walk.foldlM (check limit add) st =
      (guard limit walk).map fun walk => walk.foldl (fun st v => add st v.module) st := by
  induction walk generalizing st with
  | nil => rfl
  | cons v walk ih =>
    rw [List.foldlM_cons, check, guard, tooDeep?, List.find?_cons]
    by_cases hdeep : limit < v.depth
    · simp [hdeep, bind, Except.bind, Except.map]
    · simp only [hdeep, if_false, decide_false, bind, Except.bind, ih, guard, tooDeep?]
      cases walk.find? fun v => decide (limit < v.depth) <;> rfl

end Visit

namespace Node

variable {σ : Type}

mutual

/-- Adds the module at a depth to what is gathered, and then the selected members below it; a module
below the limit ends it. -/
def gather (keep : Node → Bool) (limit : Nat) (add : σ → Node → σ) (depth : Nat) (st : σ) :
    Node → Except Failure σ
  | .mk i cs =>
    if limit < depth then .error (.tooDeep i.path limit)
    else gatherMembers keep limit add (depth + 1) (add st (.mk i cs)) cs

/-- Adds the selected members of a module, one after the other, each with what is below it. -/
def gatherMembers (keep : Node → Bool) (limit : Nat) (add : σ → Node → σ) (depth : Nat) (st : σ) :
    List Node → Except Failure σ
  | [] => .ok st
  | c :: cs =>
    if keep c then do
      let st ← c.gather keep limit add depth st
      gatherMembers keep limit add depth st cs
    else gatherMembers keep limit add depth st cs

end

variable (keep : Node → Bool) (limit : Nat) (add : σ → Node → σ)

mutual

theorem gather_eq_foldlM (depth : Nat) (st : σ) (t : Node) :
    t.gather keep limit add depth st =
      (t.walkFrom keep depth).foldlM (Visit.check limit add) st := by
  match t with
  | .mk i cs =>
    rw [gather, walkFrom, List.foldlM_cons, Visit.check]
    split
    · rfl
    · exact gatherMembers_eq_foldlM (depth + 1) _ cs

theorem gatherMembers_eq_foldlM (depth : Nat) (st : σ) (cs : List Node) :
    gatherMembers keep limit add depth st cs =
      (walkMembers keep depth cs).foldlM (Visit.check limit add) st := by
  match cs with
  | [] => rfl
  | c :: cs =>
    rw [gatherMembers, walkMembers]
    split
    · rw [List.foldlM_append, gather_eq_foldlM depth st c]
      exact bind_congr fun st => gatherMembers_eq_foldlM depth st cs
    · rw [List.nil_append]
      exact gatherMembers_eq_foldlM depth st cs

end

/-- The recursion is the walk that is checked as a whole. -/
theorem gather_eq_guard (depth : Nat) (st : σ) (t : Node) :
    t.gather keep limit add depth st =
      (Visit.guard limit (t.walkFrom keep depth)).map fun walk =>
        walk.foldl (fun st v => add st v.module) st := by
  rw [gather_eq_foldlM, Visit.foldlM_check]

end Node

/-! ## The tables -/

namespace SymbolTable

/-- The table with the symbols of a module put into it, one after the other. -/
def addModule (root : String) (t : SymbolTable) (module : Node) : SymbolTable :=
  (symbolsOf module).foldl (fun t x => t.insert (entryOf root x).1 (entryOf root x).2) t

/-- The symbol table by recursion over the documented packages. -/
def gather (s : Snapshot) (limit : Nat) : Except Failure SymbolTable :=
  s.root.gather Contents.isDocumentedPackage limit (addModule s.rootName) 0 ∅

theorem ofWalk_eq_foldl (root : String) (walk : List Visit) :
    ofWalk root walk = walk.foldl (fun t v => addModule root t v.module) ∅ := by
  rw [ofWalk, Dict.ofList, Dict.insertAll, List.foldl_map, List.foldl_flatMap]
  rfl

/-- The symbol table is that of the recursion. -/
theorem build_eq_gather (s : Snapshot) (limit : Nat) : build s limit = gather s limit := by
  rw [gather, Node.gather_eq_guard, build]
  exact congrArg (fun f => (Visit.guard limit s.pages).map f)
    (funext fun walk => ofWalk_eq_foldl s.rootName walk)

end SymbolTable

namespace Reexport

/-- The map with a binding put into it, or the findings with a fault. -/
def addTo (m : Noted ReexportMap) : Reexport → Noted ReexportMap
  | binding path target => ⟨m.value.insert path target, m.findings⟩
  | fault path => ⟨m.value, m.findings ++ [.error path unresolved]⟩

theorem foldl_addTo (m : Noted ReexportMap) (rs : List Reexport) :
    rs.foldl addTo m =
      ⟨m.value.insertAll (rs.filterMap entry?), m.findings ++ rs.filterMap finding?⟩ := by
  induction rs generalizing m with
  | nil => simp [Dict.insertAll]
  | cons r rs ih =>
    rw [List.foldl_cons, ih]
    cases r with
    | binding path target => rfl
    | fault path =>
      rw [addTo, List.append_assoc]
      rfl

end Reexport

namespace ReexportMap

/-- The map with what the members of a module re-export put into it, one after the other. -/
def addModule (s : Snapshot) (m : Noted ReexportMap) (module : Node) : Noted ReexportMap :=
  module.children.foldl (fun m member => (Reexport.ofNode s module member).foldl Reexport.addTo m) m

/-- The map of re-exports by recursion over all modules. -/
def gather (s : Snapshot) (limit : Nat) : Except Failure (Noted ReexportMap) :=
  s.root.gather Node.isModule limit (addModule s) 0 ⟨∅, []⟩

theorem foldl_addModule (s : Snapshot) (m : Noted ReexportMap) (walk : List Visit) :
    walk.foldl (fun m v => addModule s m v.module) m =
      (Reexport.ofWalk s walk).foldl Reexport.addTo m := by
  simp only [addModule, Reexport.ofWalk, List.foldl_flatMap]

/-- The map of re-exports, with its findings, is that of the recursion. -/
theorem build_eq_gather (s : Snapshot) (limit : Nat) : build s limit = gather s limit := by
  rw [gather, Node.gather_eq_guard, build]
  refine congrArg (fun f => (Visit.guard limit s.modules).map f) (funext fun walk => ?_)
  rw [foldl_addModule, Reexport.foldl_addTo]
  rfl

end ReexportMap

/-- The tables of a project are gathered by the two recursions. -/
theorem Project.gather_of_build {s : Snapshot} {settings : Settings} {p : Noted Project}
    (h : build s settings = .ok p) :
    SymbolTable.gather s settings.maxDepth = .ok p.value.symbols ∧
      ReexportMap.gather s settings.maxDepth = .ok ⟨p.value.reexports, p.findings⟩ := by
  rw [← SymbolTable.build_eq_gather, ← ReexportMap.build_eq_gather]
  unfold build at h
  cases hsymbols : SymbolTable.build s settings.maxDepth with
  | error f =>
    rw [hsymbols] at h
    cases h
  | ok symbols =>
    cases hreexports : ReexportMap.build s settings.maxDepth with
    | error f =>
      rw [hsymbols, hreexports] at h
      cases h
    | ok reexports =>
      rw [hsymbols, hreexports] at h
      cases h
      exact ⟨rfl, rfl⟩

end ApiPages
