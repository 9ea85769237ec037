import ApiPages.Expr.Basic

/-!
# Walking expressions

An expression is walked from the outside in and from left to right. A visitor is told of every
expression before its parts and of every resolved name; its answer steers the walk.

* `WalkStep` — go on, skip the parts of this expression, or stop the whole walk.
* `ExprVisitor` — the answers of a visitor that carries a state.
* `Expr.walk` — the walk.
* `Expr.collectNames` — the resolved names of several expressions, in walk order.
-/

namespace ApiPages

/-- How a walk goes on. -/
inductive WalkStep where
  | goOn
  | skipParts
  | stop
deriving DecidableEq, Repr

/-- A visitor with a state of type `σ`. -/
structure ExprVisitor (σ : Type) where
  /-- The answer to an expression, before its parts. -/
  onExpr : Expr → σ → WalkStep × σ
  /-- The answer to a resolved name. -/
  onName : NameRef → σ → WalkStep × σ

namespace ExprVisitor

variable {σ : Type}

/-- Asks about an expression and enters it unless the answer says otherwise. -/
def enter (v : ExprVisitor σ) (e : Expr) (inside : σ → WalkStep × σ) (st : σ) : WalkStep × σ :=
  match v.onExpr e st with
  | (.stop, st) => (.stop, st)
  | (.skipParts, st) => (.goOn, st)
  | (.goOn, st) => inside st

/-- Continues after a part of an expression unless the walk was stopped there. -/
def andThen (r : WalkStep × σ) (next : σ → WalkStep × σ) : WalkStep × σ :=
  match r with
  | (.stop, st) => (.stop, st)
  | (_, st) => next st

/-- The end of the parts of an expression. -/
def done (st : σ) : WalkStep × σ := (.goOn, st)

end ExprVisitor

namespace Expr

variable {σ : Type}

open ExprVisitor in
mutual

/-- Walks an expression; the result is `stop` iff the visitor stopped the walk. -/
def walk (v : ExprVisitor σ) : Expr → σ → WalkStep × σ
  | .name n, st => v.enter (.name n) (v.onName n) st
  | .dotted es, st => v.enter (.dotted es) (fun st => walkAll v es st) st
  | .subscript l s, st =>
    v.enter (.subscript l s)
      (fun st => andThen (walk v l st) fun st => andThen (walk v s st) done) st
  | .tuple es, st => v.enter (.tuple es) (fun st => walkAll v es st) st
  | .list es, st => v.enter (.list es) (fun st => walkAll v es st) st
  | .binop l o r, st =>
    v.enter (.binop l o r)
      (fun st => andThen (walk v l st) fun st => andThen (walk v r st) done) st
  | .call f es, st =>
    v.enter (.call f es) (fun st => andThen (walk v f st) fun st => walkAll v es st) st
  | .keyword n e, st => v.enter (.keyword n e) (fun st => andThen (walk v e st) done) st
  | .constant c, st => v.enter (.constant c) done st

/-- Walks the expressions one after another until the visitor stops. -/
def walkAll (v : ExprVisitor σ) : List Expr → σ → WalkStep × σ
  | [], st => done st
  | e :: es, st => andThen (walk v e st) fun st => walkAll v es st

end

/-- Gathers the names that it is told of. -/
def nameCollector : ExprVisitor (List NameRef) where
  onExpr _ names := (.goOn, names)
  onName n names := (.goOn, names ++ [n])

/-- The resolved names of several expressions, in walk order. -/
def collectNames (es : List Expr) : List NameRef :=
  es.foldl (fun names e => (e.walk nameCollector names).2) []

/-- Records what it is told of and answers by rule: expressions by kind, names by spelling. -/
def recorder (onKind onSpelling : String → WalkStep) : ExprVisitor (List String) where
  onExpr e trace := (onKind e.kindLabel, trace ++ ["expr:" ++ e.kindLabel])
  onName n trace := (onSpelling n.spelling, trace ++ ["name:" ++ n.spelling ++ "=" ++ n.path])

/-- Is told of everything and always goes on. -/
def bystander : ExprVisitor Unit where
  onExpr _ st := (.goOn, st)
  onName _ st := (.goOn, st)

end Expr

end ApiPages
