import TreeQuery.Proofs.Evaluation.Calls

/-!
# Errors as values

An error is a value too. Operators, signs, casts, conditions and sequences hand on an error that they are
given, and so does whatever is made of these. The call of a function in an expression does not: the function
sees an error among its arguments as a value like any other.
-/

namespace TreeQuery

/-- Whether an operator always needs both its operands. -/
def BinaryOp.isStrict : BinaryOp → Bool
  | .and | .or | .simpleMap => false
  | _ => true

/-- An expression with a part left out. -/
inductive Frame where
  | leftOperand (op : BinaryOp) (right : Expr)
  | rightOperand (left : Expr) (op : BinaryOp)
  | signed (sign : Sign)
  | castAs (target : SingleType)
  | member (before after : List Expr)
  | condition (whenTrue whenFalse : Expr)

/-- Puts the part in. -/
def Frame.fill : Frame → Expr → Expr
  | leftOperand op right, e => .binary op e right
  | rightOperand left op, e => .binary op left e
  | signed sign, e => .signed sign e
  | castAs target, e => .castAs e target
  | member before after, e => .sequence (before ++ e :: after)
  | condition whenTrue whenFalse, e => .ifThenElse e whenTrue whenFalse

namespace Eval

variable {registry : Registry} {deeper : Deeper} {c : Context} {err : EvalError}

/-- An evaluation has a value in a context, and keeps the context. -/
def HasValue (c : Context) (m : Eval Item) : Prop := ∃ v, m.run.run c = (.ok v, c)

/-- An evaluation has a value in a context that is no error, and keeps the context. -/
def HasSoundValue (c : Context) (m : Eval Item) : Prop :=
  ∃ v, m.run.run c = (.ok v, c) ∧ v.error? = none

/-- An evaluation fails with an error in a context, or has it as its value, and keeps the context. -/
def GivesError (c : Context) (err : EvalError) (m : Eval Item) : Prop :=
  m.run.run c = (.error err, c) ∨ m.run.run c = (.ok (.error err), c)

/-- What is evaluated beside the part has a value, and what is evaluated before it one that is no error. -/
def Ready (registry : Registry) (deeper : Deeper) (c : Context) : Frame → Prop
  | .leftOperand op right =>
    op = .and ∨ op = .or ∨ (op.isStrict = true ∧ HasValue c (expr registry deeper right))
  | .rightOperand left op => op.isStrict = true ∧ HasSoundValue c (expr registry deeper left)
  | .member before after =>
    (∀ e ∈ before, HasSoundValue c (expr registry deeper e)) ∧
      ∀ e ∈ after, HasValue c (expr registry deeper e)
  | .signed _ | .castAs _ | .condition _ _ => True

/-- What follows an evaluation gives the error if it does so for an error as a value. -/
theorem GivesError.bind {m : Eval Item} {f : Item → Eval Item} (hm : GivesError c err m)
    (hf : GivesError c err (f (.error err))) : GivesError c err (m >>= f) := by
  rcases hm with hm | hm
  · left
    rw [run_bind, hm]
  · rw [GivesError, run_bind, hm]
    exact hf

/-! ### Operators -/

private theorem strictBinary_error_left {op : BinaryOp} (hop : op.isStrict = true) (right : Item) :
    GivesError c err (strictBinary op (.error err) right) := by
  left
  cases op with
  | comparison comparison => cases comparison <;> rfl
  | and | or | simpleMap => contradiction
  | _ => rfl

private theorem strictBinary_error_right {op : BinaryOp} (hop : op.isStrict = true) {left : Item}
    (h : left.error? = none) : GivesError c err (strictBinary op left (.error err)) := by
  have honOperands (result : Except EvalError Item) :
      Item.onOperands left (.error err) result = .error err := by
    rw [Item.onOperands, h]
    rfl
  left
  cases op with
  | comparison comparison => cases comparison <;> exact congrArg (·, c) (honOperands _)
  | and | or | simpleMap => contradiction
  | _ => exact congrArg (·, c) (honOperands _)

/-- A strict operator evaluates its operands one after the other. -/
theorem binary_of_isStrict {op : BinaryOp} (hop : op.isStrict = true) (left right : Eval Item) :
    binary op left right = left >>= fun l => right >>= fun r => strictBinary op l r := by
  cases op with
  | and | or | simpleMap => contradiction
  | _ => rfl

private theorem truth_of_givesError {m : Eval Item} (hm : GivesError c err m) :
    (truth m).run.run c = (.error err, c) := by
  rw [truth, run_bind]
  rcases hm with hm | hm
  · rw [hm]
  · rw [hm]
    rfl

/-! ### Sequences -/

private theorem exprs_of_hasValue {es : List Expr} (h : ∀ e ∈ es, HasValue c (expr registry deeper e)) :
    ∃ values, (exprs registry deeper es).run.run c = (.ok values, c) := by
  induction es with
  | nil => exact ⟨[], rfl⟩
  | cons e es ih =>
    obtain ⟨⟨v, hv⟩, hes⟩ := List.forall_mem_cons.mp h
    obtain ⟨values, hvalues⟩ := ih hes
    refine ⟨v :: values, ?_⟩
    rw [exprs, run_bind, hv]
    simp only [run_bind, hvalues]
    rfl

/-- Of values among which an error is the first one the error is what a sequence has. -/
theorem exprs_of_givesError {before after : List Expr} {e : Expr}
    (hbefore : ∀ e ∈ before, HasSoundValue c (expr registry deeper e))
    (hafter : ∀ e ∈ after, HasValue c (expr registry deeper e))
    (he : GivesError c err (expr registry deeper e)) :
    (exprs registry deeper (before ++ e :: after)).run.run c = (.error err, c) ∨
      ∃ values, (exprs registry deeper (before ++ e :: after)).run.run c = (.ok values, c) ∧
        values.findSome? Item.error? = some err := by
  induction before with
  | nil =>
    rw [List.nil_append, exprs, run_bind]
    rcases he with he | he
    · left
      rw [he]
    · right
      obtain ⟨values, hvalues⟩ := exprs_of_hasValue hafter
      rw [he]
      refine ⟨.error err :: values, ?_, rfl⟩
      simp only [run_bind, hvalues]
      rfl
  | cons e' before ih =>
    obtain ⟨⟨v, hv, hsound⟩, hbefore⟩ := List.forall_mem_cons.mp hbefore
    rw [List.cons_append, exprs, run_bind, hv]
    rcases ih hbefore with hfails | ⟨values, hvalues, hfirst⟩
    · left
      simp only [run_bind, hfails]
    · right
      refine ⟨v :: values, ?_, ?_⟩
      · simp only [run_bind, hvalues]
        rfl
      · rw [List.findSome?_cons, hsound, hfirst]

/-! ### Frames -/

private theorem givesError_fill {frame : Frame} {e : Expr} (hready : Ready registry deeper c frame)
    (he : GivesError c err (expr registry deeper e)) :
    GivesError c err (expr registry deeper (frame.fill e)) := by
  cases frame with
  | leftOperand op right =>
    rw [Frame.fill, expr]
    obtain rfl | rfl | ⟨hop, v, hv⟩ := hready
    · left
      rw [binary, run_bind, truth_of_givesError he]
    · left
      rw [binary, run_bind, truth_of_givesError he]
    · rw [binary_of_isStrict hop]
      refine he.bind ?_
      rw [GivesError, run_bind, hv]
      exact strictBinary_error_left hop v
  | rightOperand left op =>
    obtain ⟨hop, v, hv, hsound⟩ := hready
    rw [Frame.fill, expr, binary_of_isStrict hop, GivesError, run_bind, hv]
    exact he.bind (strictBinary_error_right hop hsound)
  | signed sign =>
    rw [Frame.fill, expr]
    exact he.bind (Or.inl rfl)
  | castAs target =>
    rw [Frame.fill, expr]
    exact he.bind (Or.inl rfl)
  | member before after =>
    obtain ⟨hbefore, hafter⟩ := hready
    rw [Frame.fill, expr, GivesError, run_bind]
    rcases exprs_of_givesError hbefore hafter he with hfails | ⟨values, hvalues, hfirst⟩
    · left
      rw [hfails]
    · right
      rw [hvalues]
      change (Except.ok (Item.ofList values), c) = _
      rw [Item.ofList, hfirst]
  | condition whenTrue whenFalse =>
    left
    rw [Frame.fill, expr, run_bind, truth_of_givesError he]

/-- However many frames stand around a part that gives an error, all of them hand it on. -/
theorem givesError_frames {frames : List Frame} {e : Expr}
    (hready : ∀ frame ∈ frames, Ready registry deeper c frame)
    (he : GivesError c err (expr registry deeper e)) :
    GivesError c err (expr registry deeper (frames.foldr Frame.fill e)) := by
  induction frames with
  | nil => exact he
  | cons frame frames ih =>
    obtain ⟨hframe, hframes⟩ := List.forall_mem_cons.mp hready
    exact givesError_fill hframe (ih hframes)

/-- A variable evaluates to the value that it is bound to. -/
theorem run_var {name : QName} {v : Item} (h : c.lookup? name = some v) :
    (expr registry deeper (.var name)).run.run c = (.ok v, c) := by
  rw [expr, variableValue, run_reading, h]

private theorem run_result (registry : Registry) (e : Expr) (c : Context) :
    (result registry e).run.run c =
      (expr registry (deeperFrom registry c) e >>= fun value => reading fun _ => value.toResult).run.run
        c := by
  rw [result, run_bind, run_bind, evaluate, run_bind]
  rfl

/-- An error that is the value of a variable is the result of all that hands on what it is given. -/
theorem result_of_frames {frames : List Frame} {name : QName}
    (h : c.lookup? name = some (.error err))
    (hready : ∀ frame ∈ frames, Ready registry (deeperFrom registry c) c frame) :
    (result registry (frames.foldr Frame.fill (.var name))).run.run c = (.error err, c) := by
  have hgives := givesError_frames hready (Or.inr (run_var h))
  rw [run_result, run_bind]
  rcases hgives with hgives | hgives
  · rw [hgives]
  · rw [hgives]
    rfl

/-! ### Where an error is a value like any other -/

/-- A function sees an error among its arguments: an error is counted as one item. -/
theorem result_count_of_error {name : QName} (h : c.lookup? name = some (.error err))
    (hdepth : c.depth < c.limits.depth) :
    (result Registry.library (.call (.simple "count") [.value (.var name)])).run.run c =
      (.ok (.integer 1), c) := by
  have hcount : Registry.library.resolve? (.simple "count") =
      some (.unary "count" fun _ x => .ok (.ofNat x.count)) :=
    (Registry.resolve?_library_simple _).trans rfl
  have hvar : Evaluate .library (deeperFrom .library c) c [.var name] [.error err] :=
    .cons (run_var h) .nil
  rw [run_result]
  exact run_bind_ok (run_expr_call rfl hcount rfl hdepth hvar rfl :) _

end Eval

end TreeQuery
