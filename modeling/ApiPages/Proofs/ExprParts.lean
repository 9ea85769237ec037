import ApiPages.Expr.Basic

/-!
# Expressions and their parts

The parts of an expression are the expressions directly in it, from left to right. What holds of an
expression whenever it holds of its parts holds of every expression.

* `Expr.parts`: the expressions directly in an expression.
* `Expr.induct`: induction over expressions by their parts.
-/

namespace ApiPages.Expr

/-- The expressions directly in an expression, from left to right. -/
def parts : Expr → List Expr
  | name _ => []
  | dotted es => es
  | subscript l s => [l, s]
  | tuple es => es
  | list es => es
  | binop l _ r => [l, r]
  | call f es => f :: es
  | keyword _ e => [e]
  | constant _ => []

theorem sizeOf_lt_of_mem_parts {e x : Expr} (hx : x ∈ e.parts) : sizeOf x < sizeOf e := by
  cases e with
  | name r => cases hx
  | constant c => cases hx
  | dotted es | tuple es | list es =>
    have hlt : sizeOf x < sizeOf es := List.sizeOf_lt_of_mem hx
    simp only [dotted.sizeOf_spec, tuple.sizeOf_spec, list.sizeOf_spec]
    omega
  | subscript l s =>
    simp only [parts, List.mem_cons, List.not_mem_nil, or_false] at hx
    rcases hx with rfl | rfl <;> simp only [subscript.sizeOf_spec] <;> omega
  | binop l o r =>
    simp only [parts, List.mem_cons, List.not_mem_nil, or_false] at hx
    rcases hx with rfl | rfl <;> simp only [binop.sizeOf_spec] <;> omega
  | call f es =>
    have hlt : sizeOf x < sizeOf (f :: es) := List.sizeOf_lt_of_mem hx
    simp only [List.cons.sizeOf_spec] at hlt
    simp only [call.sizeOf_spec]
    omega
  | keyword n e =>
    cases List.mem_singleton.mp hx
    simp only [keyword.sizeOf_spec]
    omega

/-- What passes from the parts of an expression to the expression holds of every expression. -/
theorem induct {motive : Expr → Prop}
    (step : ∀ e, (∀ x ∈ e.parts, motive x) → motive e) (e : Expr) : motive e :=
  step e fun x _hx => induct step x
termination_by sizeOf e
decreasing_by exact sizeOf_lt_of_mem_parts _hx

end ApiPages.Expr
