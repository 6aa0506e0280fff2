import TreeQuery.Proofs.Evaluation.Calls
import TreeQuery.Proofs.Evaluation.Paths
import TreeQuery.Proofs.Evaluation.Stages

/-!
# Values of expressions from the values of their parts

An evaluation over functions that keep the context puts it back, so all parts of an expression are
evaluated in the context of the whole, and the value of the whole comes from the values of the parts.
-/

namespace TreeQuery.Eval

variable {registry : Registry} {c : Context} {name : QName} {f : LibraryFunction} {es : List Expr}
  {values : List Item} {r : Except EvalError Item}

/-- An expression that keeps the context leaves it with its value. -/
theorem run_expr_of_keeps {e : Expr} (h : ((expr registry (deeperFrom registry c) e).run.run c).2 = c) :
    (expr registry (deeperFrom registry c) e).run.run c = (valueIn registry c e, c) := by
  rw [valueIn, run_evaluate_expr]
  exact Prod.ext rfl h

/-- Over functions that keep the context an expression leaves the context with its value. -/
theorem run_expr_eq_valueIn (hr : registry.Keeps) (c : Context) (e : Expr) :
    (expr registry (deeperFrom registry c) e).run.run c = (valueIn registry c e, c) :=
  run_expr_of_evaluate hr rfl

private theorem valueIn_of_run {e : Expr}
    (h : (expr registry (deeperFrom registry c) e).run.run c = (r, c)) :
    valueIn registry c e = r := by
  rw [valueIn, run_evaluate_expr]
  exact congrArg Prod.fst h

/-- A link behind an expression is evaluated in the context of the whole. -/
theorem valueIn_link (hr : registry.Keeps) (base : Expr) (l : Link) :
    valueIn registry c (base.link l) = valueIn registry c base >>= fun value =>
      ((links registry (deeperFrom registry c) value [l]).run.run c).1 := by
  rw [valueIn, run_evaluate_expr]
  rw [expr_link, run_bind, run_expr_eq_valueIn hr]
  cases valueIn registry c base <;> rfl

private theorem exprs_eq_mapM (deeper : Deeper) (es : List Expr) :
    exprs registry deeper es = es.mapM (expr registry deeper) := by
  induction es with
  | nil => rfl
  | cons e es ih => rw [exprs, ih, List.mapM_cons]

/-- The members of a sequence are evaluated one after the other in the same context. -/
theorem valueIn_sequence_of_keeps
    (h : ∀ e, ((expr registry (deeperFrom registry c) e).run.run c).2 = c) (es : List Expr) :
    valueIn registry c (.sequence es) = (es.mapM (valueIn registry c)).map .ofList := by
  refine valueIn_of_run ?_
  rw [expr, exprs_eq_mapM, run_bind, run_mapM fun e _ => run_expr_of_keeps (h e)]
  cases es.mapM (valueIn registry c) <;> rfl

/-- The members of a sequence are evaluated one after the other in the same context, over functions that
keep it. -/
theorem valueIn_sequence (hr : registry.Keeps) (es : List Expr) :
    valueIn registry c (.sequence es) = (es.mapM (valueIn registry c)).map .ofList :=
  valueIn_sequence_of_keeps (fun e => keeps_expr hr (keeps_deeperFrom hr _) e c) es

/-- Expressions with values evaluate to them, one by one, over functions that keep the context. -/
theorem evaluate_of_valueIn (hr : registry.Keeps)
    (h : List.Forall₂ (fun e v => valueIn registry c e = .ok v) es values) :
    Evaluate registry (deeperFrom registry c) c es values := by
  refine h.imp fun e v he => ?_
  rw [run_expr_eq_valueIn hr, he]

/-- Where the limits allow a call, a function of the library that reads nothing but the forest gives what
its rule says of the values of the arguments. -/
theorem valueIn_call (hname : constructorType? name = none)
    (hf : Registry.library.resolve? name = some f) (haccepts : f.accepts values.length = true)
    (hdepth : c.depth < c.limits.depth)
    (hes : List.Forall₂ (fun e v => valueIn .library c e = .ok v) es values)
    (hrun : (f.run (deeperFrom .library c).call values).run.run { c with depth := c.depth + 1 } =
      (r, { c with depth := c.depth + 1 })) :
    valueIn .library c (.call name (es.map .value)) = r >>= Item.toResult :=
  valueIn_of_run
    (run_expr_call hname hf haccepts hdepth (evaluate_of_valueIn Registry.keeps_library hes) hrun)

end TreeQuery.Eval
