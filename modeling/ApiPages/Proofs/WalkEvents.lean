import ApiPages.Proofs.ExprNames
import ApiPages.Proofs.ExprParts

/-!
# The events of a walk

What a visitor may be told of in a walk is the tree of the events of the expression: every
expression above what is told of its parts, and every resolved name below its expression. A skip
prunes this tree, and what is left, from the top and from the left, is what the walk tells the
visitor until it answers with a stop.

A visitor has a state, so its answers may depend on all that it was told before.

* `Expr.eventTree`: the events of an expression.
* `EventTree.emit`: the events that are not skipped, with their answers and whatever the stops.
* `ExprVisitor.logged`: a visitor that keeps what it is told and its answers.
* `Expr.walk_follows`: a walk makes the calls that are ahead of it through the first stop.
* `Expr.walk_calls`: the calls, the result and the state of every walk.
-/

namespace ApiPages

/-- What a visitor is told of. -/
inductive WalkEvent where
  | expr (e : Expr)
  | name (n : NameRef)

/-- What a visitor was told of, with its answers. -/
abbrev WalkCalls := List (WalkEvent × WalkStep)

namespace WalkCalls

/-- Some call was answered with a stop. -/
def HasStop (calls : WalkCalls) : Prop := ∃ c ∈ calls, c.2 = .stop

/-- The calls up to the first that was answered with a stop, and this one. -/
def throughStop : WalkCalls → WalkCalls
  | [] => []
  | c :: cs => if c.2 = .stop then [c] else c :: throughStop cs

theorem hasStop_cons {c : WalkEvent × WalkStep} {cs : WalkCalls} :
    HasStop (c :: cs) ↔ c.2 = .stop ∨ HasStop cs := by
  simp [HasStop]

theorem hasStop_append {cs ds : WalkCalls} :
    HasStop (cs ++ ds) ↔ HasStop cs ∨ HasStop ds := by
  simp only [HasStop, List.mem_append, or_and_right, exists_or]

theorem throughStop_append_of_hasStop {cs : WalkCalls} (h : HasStop cs) (ds : WalkCalls) :
    throughStop (cs ++ ds) = throughStop cs := by
  induction cs with
  | nil => simp [HasStop] at h
  | cons c cs ih =>
    rw [List.cons_append, throughStop, throughStop]
    split
    · rfl
    · next hc => rw [ih ((hasStop_cons.mp h).resolve_left hc)]

theorem throughStop_append_of_not_hasStop {cs : WalkCalls} (h : ¬ HasStop cs) (ds : WalkCalls) :
    throughStop (cs ++ ds) = cs ++ throughStop ds := by
  induction cs with
  | nil => rfl
  | cons c cs ih =>
    rw [hasStop_cons, not_or] at h
    rw [List.cons_append, throughStop, if_neg h.1, ih h.2, List.cons_append]

theorem throughStop_of_not_hasStop {cs : WalkCalls} (h : ¬ HasStop cs) : throughStop cs = cs := by
  simpa [throughStop] using throughStop_append_of_not_hasStop h []

end WalkCalls

/-- An event and those that come next, unless its answer skips them. -/
inductive EventTree where
  | node (event : WalkEvent) (below : List EventTree)

namespace Expr

mutual

/-- The events of an expression: the expression, and below it its name or the events of its parts
from left to right. -/
def eventTree : Expr → EventTree
  | name n => .node (.expr (name n)) [.node (.name n) []]
  | dotted es => .node (.expr (dotted es)) (eventTrees es)
  | subscript l s => .node (.expr (subscript l s)) [l.eventTree, s.eventTree]
  | tuple es => .node (.expr (tuple es)) (eventTrees es)
  | list es => .node (.expr (list es)) (eventTrees es)
  | binop l o r => .node (.expr (binop l o r)) [l.eventTree, r.eventTree]
  | call f es => .node (.expr (call f es)) (f.eventTree :: eventTrees es)
  | keyword n e => .node (.expr (keyword n e)) [e.eventTree]
  | constant c => .node (.expr (constant c)) []

/-- The events of several expressions. -/
def eventTrees : List Expr → List EventTree
  | [] => []
  | e :: es => e.eventTree :: eventTrees es

end

theorem eventTrees_eq (es : List Expr) : eventTrees es = es.map eventTree := by
  induction es with
  | nil => rfl
  | cons e es ih => rw [eventTrees, ih, List.map_cons]

end Expr

variable {σ : Type}

namespace ExprVisitor

/-- The answer to an event. -/
def answer (v : ExprVisitor σ) : WalkEvent → σ → WalkStep × σ
  | .expr e, st => v.onExpr e st
  | .name n, st => v.onName n st

/-- The visitor, which also keeps its calls. -/
def logged (v : ExprVisitor σ) : ExprVisitor (σ × WalkCalls) where
  onExpr e st :=
    let a := v.onExpr e st.1
    (a.1, a.2, st.2 ++ [(.expr e, a.1)])
  onName n st :=
    let a := v.onName n st.1
    (a.1, a.2, st.2 ++ [(.name n, a.1)])

end ExprVisitor

namespace EventTree

mutual

/-- The events of a tree with their answers, and the state after them. Nothing below an event that
is answered with a skip is among them; a stop is taken for an answer like any other. -/
def emit (v : ExprVisitor σ) : EventTree → σ → WalkCalls × σ
  | node event below, st =>
    let a := v.answer event st
    if a.1 = .skipParts then ([(event, a.1)], a.2)
    else
      let rest := emitAll v below a.2
      ((event, a.1) :: rest.1, rest.2)

/-- The events of several trees, one tree after another. -/
def emitAll (v : ExprVisitor σ) : List EventTree → σ → WalkCalls × σ
  | [], st => ([], st)
  | t :: ts, st =>
    let first := emit v t st
    let rest := emitAll v ts first.2
    (first.1 ++ rest.1, rest.2)

end

end EventTree

/-! ## Pieces of a walk -/

/-- A piece of a walk, and the same piece with the calls kept, when these calls are ahead: they are
made through the first stop, and the state is the one after them when there is no stop. -/
structure Follows (ahead : WalkCalls × σ) (log : WalkCalls) (run : WalkStep × σ)
    (kept : WalkStep × σ × WalkCalls) : Prop where
  kept_eq : kept = (run.1, run.2, log ++ ahead.1.throughStop)
  stop_iff : run.1 = .stop ↔ ahead.1.HasStop
  state_eq : ¬ ahead.1.HasStop → run.2 = ahead.2

namespace Follows

open ExprVisitor

theorem done (st : σ) (log : WalkCalls) :
    Follows ([], st) log (done st) (ExprVisitor.done (st, log)) where
  kept_eq := by simp [ExprVisitor.done, WalkCalls.throughStop]
  stop_iff := by simp [ExprVisitor.done, WalkCalls.HasStop]
  state_eq _ := rfl

/-- One piece and then another. -/
theorem andThen {first rest : WalkCalls × σ} {log : WalkCalls} {run : WalkStep × σ}
    {kept : WalkStep × σ × WalkCalls} {next : σ → WalkStep × σ}
    {keptNext : σ × WalkCalls → WalkStep × σ × WalkCalls} (h : Follows first log run kept)
    (hnext : ∀ log, Follows rest log (next first.2) (keptNext (first.2, log))) :
    Follows (first.1 ++ rest.1, rest.2) log (andThen run next)
      (ExprVisitor.andThen kept keptNext) := by
  obtain ⟨step, st⟩ := run
  rw [h.kept_eq]
  by_cases hstop : first.1.HasStop
  · cases h.stop_iff.mpr hstop
    refine ⟨?_, ?_, fun hnot => absurd (WalkCalls.hasStop_append.mpr (.inl hstop)) hnot⟩
    · rw [WalkCalls.throughStop_append_of_hasStop hstop]
      rfl
    · simp [ExprVisitor.andThen, WalkCalls.hasStop_append, hstop]
  · have hstep : step ≠ .stop := fun hs => hstop (h.stop_iff.mp hs)
    cases h.state_eq hstop
    have hrest := hnext (log ++ first.1)
    have hrun : ExprVisitor.andThen (step, first.2) next = next first.2 := by
      cases step <;> first | rfl | exact absurd rfl hstep
    have hkept : ExprVisitor.andThen (step, first.2, log ++ first.1) keptNext =
        keptNext (first.2, log ++ first.1) := by
      cases step <;> first | rfl | exact absurd rfl hstep
    rw [hrun, WalkCalls.throughStop_of_not_hasStop hstop, hkept]
    refine ⟨?_, ?_, fun hnot => hrest.state_eq fun hs =>
      hnot (WalkCalls.hasStop_append.mpr (.inr hs))⟩
    · rw [hrest.kept_eq, WalkCalls.throughStop_append_of_not_hasStop hstop, List.append_assoc]
    · rw [hrest.stop_iff, WalkCalls.hasStop_append, or_iff_right hstop]

/-- An event, and below it a piece of a walk for these trees. The piece does not matter when the
answer is a skip. -/
theorem enter {v : ExprVisitor σ} {e : Expr} {st : σ} {log : WalkCalls} {below : List EventTree}
    {inside : σ → WalkStep × σ} {keptInside : σ × WalkCalls → WalkStep × σ × WalkCalls}
    (h : ∀ st log, Follows (EventTree.emitAll v below st) log (inside st) (keptInside (st, log))) :
    Follows (EventTree.emit v (.node (.expr e) below) st) log (v.enter e inside st)
      (v.logged.enter e keptInside (st, log)) := by
  have hlogged : v.logged.onExpr e (st, log) =
      ((v.onExpr e st).1, (v.onExpr e st).2, log ++ [(.expr e, (v.onExpr e st).1)]) := rfl
  rw [EventTree.emit, ExprVisitor.enter, ExprVisitor.enter, hlogged, ExprVisitor.answer]
  obtain ⟨step, st'⟩ := v.onExpr e st
  have hbelow := h st' (log ++ [(.expr e, step)])
  cases step with
  | skipParts => constructor <;> simp [WalkCalls.HasStop, WalkCalls.throughStop]
  | stop => constructor <;> simp [WalkCalls.HasStop, WalkCalls.throughStop]
  | goOn =>
    refine ⟨?_, ?_, ?_⟩
    · simpa [WalkCalls.throughStop] using hbelow.kept_eq
    · simpa [WalkCalls.hasStop_cons] using hbelow.stop_iff
    · simpa [WalkCalls.hasStop_cons] using hbelow.state_eq

/-- The name of an expression. -/
theorem name (v : ExprVisitor σ) (n : NameRef) (st : σ) (log : WalkCalls) :
    Follows (EventTree.emitAll v [.node (.name n) []] st) log (v.onName n st)
      (v.logged.onName n (st, log)) := by
  have hlogged : v.logged.onName n (st, log) =
      ((v.onName n st).1, (v.onName n st).2, log ++ [(.name n, (v.onName n st).1)]) := rfl
  rw [EventTree.emitAll, EventTree.emitAll, EventTree.emit, EventTree.emitAll, hlogged,
    ExprVisitor.answer]
  obtain ⟨step, st'⟩ := v.onName n st
  constructor <;> cases step <;> simp [WalkCalls.HasStop, WalkCalls.throughStop]

end Follows

/-! ## Whole walks -/

namespace Expr

/-- What a walk does inside an expression that is neither skipped nor the end of the walk. -/
def walkInside (v : ExprVisitor σ) : Expr → σ → WalkStep × σ
  | .name n, st => v.onName n st
  | e, st => walkAll v e.parts st

theorem walk_eq (v : ExprVisitor σ) (e : Expr) (st : σ) :
    e.walk v st = v.enter e (e.walkInside v) st := by
  cases e <;> rfl

theorem eventTree_eq (e : Expr) :
    e.eventTree = .node (.expr e)
      (match e with
        | .name n => [.node (.name n) []]
        | e => e.parts.map eventTree) := by
  cases e <;> simp [eventTree, eventTrees_eq, parts]

theorem walkAll_follows {v : ExprVisitor σ} {es : List Expr}
    (h : ∀ e ∈ es, ∀ st log,
      Follows (e.eventTree.emit v st) log (e.walk v st) (e.walk v.logged (st, log)))
    (st : σ) (log : WalkCalls) :
    Follows (EventTree.emitAll v (es.map eventTree) st) log (walkAll v es st)
      (walkAll v.logged es (st, log)) := by
  induction es generalizing st log with
  | nil => exact .done st log
  | cons e es ih =>
    obtain ⟨he, hes⟩ := List.forall_mem_cons.mp h
    exact (he st log).andThen fun log => ih hes _ log

/-- A walk makes the calls of the events of its expression through the first stop. -/
theorem walk_follows (v : ExprVisitor σ) (e : Expr) (st : σ) (log : WalkCalls) :
    Follows (e.eventTree.emit v st) log (e.walk v st) (e.walk v.logged (st, log)) := by
  induction e using induct generalizing st log with
  | step e ih =>
    rw [walk_eq, walk_eq, eventTree_eq]
    refine .enter fun st log => ?_
    cases e with
    | name n => exact .name v n st log
    | _ => exact walkAll_follows ih st log

theorem walkAll_ne_skipParts (v : ExprVisitor σ) (es : List Expr) (st : σ) :
    (walkAll v es st).1 ≠ .skipParts := by
  induction es generalizing st with
  | nil => simp [walkAll, ExprVisitor.done]
  | cons e es ih =>
    rw [walkAll]
    obtain ⟨step, st'⟩ := e.walk v st
    cases step with
    | stop => simp [ExprVisitor.andThen]
    | goOn | skipParts => exact ih st'

theorem enter_ne_skipParts {v : ExprVisitor σ} {inside : σ → WalkStep × σ}
    (h : ∀ st, (inside st).1 ≠ .skipParts) (e : Expr) (st : σ) :
    (v.enter e inside st).1 ≠ .skipParts := by
  rw [ExprVisitor.enter]
  obtain ⟨step, st'⟩ := v.onExpr e st
  cases step with
  | goOn => exact h st'
  | skipParts | stop => simp

/-- A walk results in a skip iff it is that of a name, and the name is told of and skipped. -/
theorem walk_eq_skipParts_iff (v : ExprVisitor σ) (e : Expr) (st : σ) :
    (e.walk v st).1 = .skipParts ↔ ¬ (e.eventTree.emit v st).1.HasStop ∧
      ∃ n, e = .name n ∧ (.name n, .skipParts) ∈ (e.eventTree.emit v st).1 := by
  cases e with
  | name n =>
    rw [walk, ExprVisitor.enter, eventTree, EventTree.emit, ExprVisitor.answer]
    obtain ⟨step, st'⟩ := v.onExpr (.name n) st
    cases step with
    | stop => simp [WalkCalls.HasStop]
    | skipParts => simp
    | goOn =>
      change (v.onName n st').1 = .skipParts ↔ _
      rw [EventTree.emitAll, EventTree.emit, EventTree.emitAll, EventTree.emitAll,
        ExprVisitor.answer]
      obtain ⟨step, st''⟩ := v.onName n st'
      cases step <;> simp [WalkCalls.HasStop]
  | _ =>
    rw [walk_eq]
    refine iff_of_false (enter_ne_skipParts (fun st => walkAll_ne_skipParts v _ st) _ st) ?_
    rintro ⟨-, n, h, -⟩
    cases h

/-- The calls of a walk are the events that are not skipped, through the first that is answered with
a stop, and keeping them changes nothing. The walk results in a stop iff there is such an event,
and in a skip iff there is none and the expression is a name whose event is answered with a skip.
Gathering the names of several expressions gives each of them once, from left to right. -/
theorem walk_calls :
    (∀ (σ : Type) (v : ExprVisitor σ) (e : Expr) (st : σ),
      let events := (e.eventTree.emit v st).1
      e.walk v.logged (st, []) = ((e.walk v st).1, (e.walk v st).2, events.throughStop) ∧
      ((e.walk v st).1 = .stop ↔ events.HasStop) ∧
      ((e.walk v st).1 = .skipParts ↔
        ¬ events.HasStop ∧ ∃ n, e = .name n ∧ (.name n, .skipParts) ∈ events)) ∧
    ∀ es : List Expr, collectNames es = es.flatMap names := by
  refine ⟨fun σ v e st => ?_, collectNames_eq⟩
  have h := walk_follows v e st []
  exact ⟨h.kept_eq, h.stop_iff, walk_eq_skipParts_iff v e st⟩

-- a skip at a name does not prune the names after it
example :
    (tuple [name ⟨"A", "p.A"⟩, name ⟨"B", "p.B"⟩]).walk
      (recorder (fun _ => .goOn) fun _ => .skipParts) [] =
      (.goOn, ["expr:tuple", "expr:name", "name:A=p.A", "expr:name", "name:B=p.B"]) := by
  decide

end Expr

end ApiPages
