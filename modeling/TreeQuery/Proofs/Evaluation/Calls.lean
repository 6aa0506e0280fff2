import TreeQuery.Proofs.Evaluation.Keeping
import TreeQuery.Proofs.Evaluation.References

/-!
# Calls of functions by their names

A call in an expression evaluates its arguments and runs the function one level deeper, where the limits
allow one more call. An error that the function has as its value is a failure of the call. In the library
a function stands under its name, and its name is where a call finds it.
-/

namespace TreeQuery

namespace Registry

/-- A name without a qualifier is looked up among the functions of the library as it stands. -/
theorem resolve?_library_simple (name : String) :
    library.resolve? (.simple name) = Library.functions.find? fun f => f.name == name := by
  rw [resolve?, if_pos (Or.inl (show (QName.simple name).qualifier = none from rfl)), find?,
    functions_library]
  rfl

/-- A name with a qualifier of its own is looked up with it. -/
theorem resolve?_library_qualified {qualifier : String} (h : qualifier ≠ "fn") (name : String) :
    library.resolve? ⟨some qualifier, name⟩ =
      Library.functions.find? fun f => f.name == qualifier ++ ":" ++ name := by
  rw [resolve?, if_neg (by simp [h]), find?, functions_library]
  rfl

end Registry

namespace Eval

variable {registry : Registry} {deeper : Deeper} {c : Context} {name : QName} {f : LibraryFunction}
  {es : List Expr} {values : List Item} {r : Except EvalError Item}

/-- Expressions evaluate to these values in a context, one by one, and keep the context. -/
def Evaluate (registry : Registry) (deeper : Deeper) (c : Context) (es : List Expr) (values : List Item) :
    Prop :=
  List.Forall₂ (fun e v => (expr registry deeper e).run.run c = (.ok v, c)) es values

/-- Such expressions are evaluated to their values in one go. -/
theorem Evaluate.run_exprs (h : Evaluate registry deeper c es values) :
    (exprs registry deeper es).run.run c = (.ok values, c) := by
  induction h with
  | nil => rfl
  | cons he _ ih =>
    rw [exprs, run_bind_ok he, run_bind_ok ih]
    rfl

/-- As the arguments of a call they leave no gap. -/
theorem Evaluate.run_arguments (h : Evaluate registry deeper c es values) :
    (arguments registry deeper (es.map .value)).run.run c = (.ok (values.map some), c) := by
  induction h with
  | nil => rfl
  | cons he _ ih =>
    rw [List.map_cons, arguments, run_bind_ok he, run_bind_ok ih]
    rfl

/-- With all its arguments, a function is run one level deeper. -/
theorem run_callByName (values : List Item) (hname : constructorType? name = none)
    (hf : registry.resolve? name = some f) (haccepts : f.accepts values.length = true)
    (hdepth : c.depth < c.limits.depth)
    (hrun : (f.run deeper.call values).run.run { c with depth := c.depth + 1 } =
      (r, { c with depth := c.depth + 1 })) :
    (callByName registry deeper name (values.map some)).run.run c = (r >>= Item.toResult, c) := by
  rw [callByName, completeArguments_eq_some_iff.mpr rfl]
  dsimp only
  rw [callNamed, hname]
  dsimp only
  rw [hf]
  dsimp only
  rw [if_pos haccepts, run_descend, if_neg (Nat.not_le_of_lt hdepth), run_bind, hrun]
  cases r <;> rfl

/-- A call of a function in an expression, with a value for every argument. -/
theorem run_expr_call (hname : constructorType? name = none) (hf : registry.resolve? name = some f)
    (haccepts : f.accepts values.length = true) (hdepth : c.depth < c.limits.depth)
    (hes : Evaluate registry deeper c es values)
    (hrun : (f.run deeper.call values).run.run { c with depth := c.depth + 1 } =
      (r, { c with depth := c.depth + 1 })) :
    (expr registry deeper (.call name (es.map .value))).run.run c = (r >>= Item.toResult, c) := by
  rw [expr, run_bind_ok hes.run_arguments, run_callByName values hname hf haccepts hdepth hrun]

end Eval

end TreeQuery
