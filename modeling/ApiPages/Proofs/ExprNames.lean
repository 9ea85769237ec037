import ApiPages.Expr.Walk

/-!
# Names in expressions

The walk that gathers names meets every name of an expression once, from left to right.

Results:

* `Expr.walk_nameCollector`: a walk with the collector adds the names of the expression.
* `Expr.collectNames_eq`: the collected names are those of the expressions, in order.
-/

namespace ApiPages.Expr

mutual

/-- The names in an expression, from left to right. -/
def names : Expr → List NameRef
  | name r => [r]
  | dotted es => namesAll es
  | subscript l s => l.names ++ s.names
  | tuple es => namesAll es
  | list es => namesAll es
  | binop l _ r => l.names ++ r.names
  | call f es => f.names ++ namesAll es
  | keyword _ e => e.names
  | constant _ => []

/-- The names in several expressions. -/
def namesAll : List Expr → List NameRef
  | [] => []
  | e :: es => e.names ++ namesAll es

end

@[simp] theorem enter_nameCollector (e : Expr) (inside : List NameRef → WalkStep × List NameRef)
    (acc : List NameRef) : nameCollector.enter e inside acc = inside acc := rfl

@[simp] theorem andThen_goOn {σ : Type} (st : σ) (next : σ → WalkStep × σ) :
    ExprVisitor.andThen (.goOn, st) next = next st := rfl

mutual

/-- A walk with the collector goes on to its end and adds the names of the expression. -/
theorem walk_nameCollector (e : Expr) (acc : List NameRef) :
    e.walk nameCollector acc = (.goOn, acc ++ e.names) := by
  match e with
  | name r => rfl
  | dotted es => exact walkAll_nameCollector es acc
  | subscript l s =>
    rw [walk, enter_nameCollector, walk_nameCollector l, andThen_goOn, walk_nameCollector s]
    simp [ExprVisitor.done, names]
  | tuple es => exact walkAll_nameCollector es acc
  | list es => exact walkAll_nameCollector es acc
  | binop l o r =>
    rw [walk, enter_nameCollector, walk_nameCollector l, andThen_goOn, walk_nameCollector r]
    simp [ExprVisitor.done, names]
  | call f es =>
    rw [walk, enter_nameCollector, walk_nameCollector f, andThen_goOn, walkAll_nameCollector es]
    simp [names]
  | keyword n e =>
    rw [walk, enter_nameCollector, walk_nameCollector e]
    simp [ExprVisitor.done, names]
  | constant c => simp [walk, ExprVisitor.done, names]

theorem walkAll_nameCollector (es : List Expr) (acc : List NameRef) :
    walkAll nameCollector es acc = (.goOn, acc ++ namesAll es) := by
  match es with
  | [] => simp [walkAll, namesAll, ExprVisitor.done]
  | e :: es =>
    rw [walkAll, walk_nameCollector e, andThen_goOn, walkAll_nameCollector es]
    simp [namesAll]

end

/-- The collected names are those of the expressions, in order. -/
theorem collectNames_eq (es : List Expr) : collectNames es = es.flatMap names := by
  have hfold : ∀ acc : List NameRef,
      es.foldl (fun names e => (e.walk nameCollector names).2) acc = acc ++ es.flatMap names := by
    induction es with
    | nil => simp
    | cons e es ih =>
      intro acc
      rw [List.foldl_cons, walk_nameCollector, ih, List.flatMap_cons, List.append_assoc]
  exact hfold []

end ApiPages.Expr
