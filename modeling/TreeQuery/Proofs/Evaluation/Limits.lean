import TreeQuery.Proofs.Evaluation.Levels

/-!
# What limits do to an evaluation

An evaluation is given as many levels of calls as the limit on the depth leaves it. It never gets to
where none of them is left, so all that the levels say is that every evaluation ends: with more of
them it is the same, and it satisfies the equation of an evaluator without levels. What limits do is
to make some evaluations fail. One that does not fail in this way is the same under wider limits.
-/

namespace TreeQuery

/-- The same limits twice, and no error excused. -/
def Widening.same (limits : Limits) : Widening where
  tight := limits
  wide := limits
  excused _ := False
  depth_le := Nat.le_refl _
  range_le := Nat.le_refl _
  excused_depth h := absurd h (Nat.lt_irrefl _)
  excused_range h := absurd h (Nat.lt_irrefl _)

namespace Eval

variable {α : Type} {n : Nat}

/-- Whether a result is the error of a limit. -/
def hitsLimit : Except EvalError Item → Bool
  | .error (.recursionLimit _) | .error (.rangeTooLarge ..) => true
  | _ => false

/-! ### Levels that are enough -/

private theorem run_evaluate (registry : Registry) (e : Expr) (c : Context) :
    (evaluate registry e).run.run c =
      ((levels registry id limitReached (levelsLeft c)).eval e).run.run c := by
  rw [levels_eq]
  rfl

private theorem run_call (registry : Registry) (f : Item) (args : List Item) (c : Context) :
    (call registry f args).run.run c =
      ((levels registry id limitReached (levelsLeft c)).call f args).run.run c := by
  rw [levels_eq]
  rfl

/-- Evaluations and calls from outside follow those that have enough levels. -/
theorem follows_evaluation {registry : Registry} (hr : registry.IgnoresLimits) {w : Widening}
    (out : Eval Item) {k : Nat} (hk : w.tight.depth - n < k) :
    (levels registry id out k).Follows w n id ⟨evaluate registry, call registry⟩ := by
  have hwide : w.tight.depth - n < w.wide.depth - n + 1 := by
    have hle := w.depth_le
    omega
  have hlevels : (levels registry id out k).Follows w n id
      (levels registry id limitReached (w.wide.depth - n + 1)) :=
    follows_levels hr (Nat.le_max_right n w.tight.depth) (fun _ _ _ _ h => h) out limitReached
      (Nat.le_max_left n w.tight.depth) hk hwide
  have hleft (c : Context) (hc : c.depth = n) :
      levelsLeft (c.under w.wide) = w.wide.depth - n + 1 := by
    rw [← hc]
    rfl
  refine ⟨fun e c hc => ?_, fun f args c hc => ?_, fun _ _ h => h⟩
  · rw [run_evaluate, hleft c hc]
    exact hlevels.eval e c hc
  · rw [run_call, hleft c hc]
    exact hlevels.call f args c hc

/-! ### Termination -/

private theorem Follows.run_eq {c : Context} {m₁ m₂ : Eval α}
    (h : Follows (.same c.limits) c.depth m₁ m₂) : m₁.run.run c = m₂.run.run c := by
  obtain ⟨e, he, -⟩ | ⟨result, d, -, h₁, h₂⟩ := h c rfl
  · exact he.elim
  · exact h₁.trans h₂.symm

/-- Runs an evaluation where calls are nested no deeper than `bound`. Anywhere else the alarm is run
in its place. -/
def watch (bound : Nat) (alarm m : Eval α) : Eval α :=
  ExceptT.mk fun c => if c.depth ≤ bound then m.run.run c else alarm.run.run c

private theorem run_watch {bound : Nat} {c : Context} (h : c.depth ≤ bound) (alarm m : Eval α) :
    (watch bound alarm m).run.run c = m.run.run c :=
  if_pos h

private theorem Follows.watch {w : Widening} {bound : Nat} {m₁ m₂ : Eval α} (h : Follows w n m₁ m₂)
    (hn : n ≤ bound) (alarm : Eval α) : Follows w n m₁ (watch bound alarm m₂) := by
  intro c hc
  rw [run_watch (show (c.under w.wide).depth ≤ bound from hc ▸ hn)]
  exact h c hc

/-- What is run one call deeper is run where calls are nested no deeper than the limit. -/
theorem run_descend_watch {bound : Nat} {c : Context} (h : c.limits.depth ≤ bound)
    (alarm body : Eval α) :
    (descend (watch bound alarm body)).run.run c = (descend body).run.run c := by
  rw [run_descend, run_descend]
  split
  · rfl
  · next hdeep =>
    have hbound : ({ c with depth := c.depth + 1 } : Context).depth ≤ bound :=
      Nat.le_trans (Nat.not_le.mp hdeep) h
    rw [run_watch hbound]

section

variable {registry : Registry} (hr : registry.IgnoresLimits)

include hr

private theorem follows_evaluation_deeper (c : Context)
    (h : c.depth < (Widening.same c.limits).tight.depth) :
    (levels registry id limitReached (c.limits.depth - c.depth)).Follows (.same c.limits)
      (c.depth + 1) id ⟨evaluate registry, call registry⟩ :=
  follows_evaluation hr limitReached (Nat.sub_succ_lt_self _ _ h)

/-- Evaluating satisfies the equation of an evaluator that has itself one level deeper. -/
theorem evaluate_eq_expr (e : Expr) :
    evaluate registry e = expr registry ⟨evaluate registry, call registry⟩ e := by
  refine ExceptT.ext (funext fun c => (run_evaluate registry e c).trans ?_)
  have hfollows := follows_expr hr (follows_evaluation_deeper hr c) e
  rw [Registry.wrapped_id] at hfollows
  simp only [levelsLeft, levels, Registry.wrapped_id]
  exact hfollows.run_eq

/-- Calling satisfies the equation of a caller that has itself one level deeper. -/
theorem call_eq_callWithValues (f : Item) (args : List Item) :
    call registry f args = callWithValues registry ⟨evaluate registry, call registry⟩ f args := by
  refine ExceptT.ext (funext fun c => (run_call registry f args c).trans ?_)
  have hfollows := follows_callWithValues hr (follows_evaluation_deeper hr c) f args
  rw [Registry.wrapped_id] at hfollows
  simp only [levelsLeft, levels, Registry.wrapped_id]
  exact hfollows.run_eq

/-- Evaluating and calling in a context do not change when there are more levels than those that are
left, and when all evaluations are run in a way that keeps to what they do as deep as the limit and
the context go. -/
theorem run_levels (c : Context) (wrap : Eval Item → Eval Item)
    (hwrap : ∀ n ≤ max c.limits.depth c.depth, ∀ m₁ m₂,
      Follows (.same c.limits) n m₁ m₂ → Follows (.same c.limits) n m₁ (wrap m₂))
    (out : Eval Item) (more : Nat) :
    (∀ e, ((levels registry wrap out (levelsLeft c + more)).eval e).run.run c =
      (evaluate registry e).run.run c) ∧
    (∀ f args, ((levels registry wrap out (levelsLeft c + more)).call f args).run.run c =
      (call registry f args).run.run c) := by
  have hleft : (Widening.same c.limits).tight.depth - c.depth < levelsLeft c := Nat.lt_succ_self _
  have hfollows := follows_levels hr (Nat.le_max_left _ _) hwrap limitReached out
    (Nat.le_max_right _ _) hleft (Nat.lt_of_lt_of_le hleft (Nat.le_add_right _ more))
  constructor
  · intro e
    rw [run_evaluate, (hfollows.eval e).run_eq]
  · intro f args
    rw [run_call, (hfollows.call f args).run_eq]

end

/-- Every evaluation ends, with a value, an error or a crash, and so does every call. They satisfy the
equations of an evaluator that has itself one level deeper and counts no levels, and with more levels than
are left in a context they give the same there. Nothing changes either when an alarm, whatever it does, is
raised where no level is left, and where a function of the library, the body of a function or a call is run
with calls nested deeper than the limit and than at the start. So neither of these happens. The last part
says this of all that a call does one level deeper, the check of its arguments included. -/
theorem evaluation_ends (c : Context) (alarm : Eval Item) (more : Nat) :
    (∀ e, evaluate Registry.library e =
      expr Registry.library ⟨evaluate Registry.library, call Registry.library⟩ e) ∧
    (∀ f args, call Registry.library f args =
      callWithValues Registry.library ⟨evaluate Registry.library, call Registry.library⟩ f args) ∧
    (∀ e, (exprAt Registry.library (levelsLeft c + more) e).run.run c =
      (evaluate Registry.library e).run.run c) ∧
    (∀ f args, (callAt Registry.library (levelsLeft c + more) f args).run.run c =
      (call Registry.library f args).run.run c) ∧
    let bound := max c.limits.depth c.depth
    let watched := levels Registry.library (watch bound alarm) alarm (levelsLeft c + more)
    (∀ e, (watched.eval e).run.run c = (evaluate Registry.library e).run.run c) ∧
    (∀ f args, (watched.call f args).run.run c = (call Registry.library f args).run.run c) ∧
    (∀ (body : Eval Item) (d : Context),
      (descend (watch bound alarm body)).run.run (d.under c.limits) =
        (descend body).run.run (d.under c.limits)) := by
  have hr := Registry.ignoresLimits_library
  have hmore := run_levels hr c id (fun _ _ _ _ h => h) limitReached more
  have hwatched := run_levels hr c _ (fun _ hn _ _ h => h.watch hn alarm) alarm more
  rw [levels_eq] at hmore
  refine ⟨evaluate_eq_expr hr, call_eq_callWithValues hr, hmore.1, hmore.2, hwatched.1, hwatched.2,
    fun body d => run_descend_watch (Nat.le_max_left _ _) alarm body⟩

/-- A function that calls itself with itself, and does nothing else, is stopped by the limit. -/
example :
    let again : Expr := .chain (.var (.simple "f")) [.call [.value (.var (.simple "f"))]]
    let f : Expr := .inlineFunction [⟨.simple "f", none⟩] none again
    hitsLimit ((evaluate Registry.library (.letIn [⟨.simple "f", f⟩] again)).run.run
      { limits := { depth := 3 } }).1 = true := by
  decide +kernel

/-! ### Wider limits -/

/-- An evaluation whose result is not the error of a limit has the same result under limits that are
no tighter. -/
theorem result_under_wider_limits (e : Expr) (c : Context) (limits : Limits)
    (hdepth : c.limits.depth ≤ limits.depth) (hrange : c.limits.range ≤ limits.range)
    (h : hitsLimit ((evaluate Registry.library e).run.run c).1 = false) :
    ((evaluate Registry.library e).run.run { c with limits }).1 =
      ((evaluate Registry.library e).run.run c).1 := by
  let w : Widening := {
    tight := c.limits
    wide := limits
    excused e := hitsLimit (.error e) = true
    depth_le := hdepth
    range_le := hrange
    excused_depth _ := rfl
    excused_range _ _ := rfl }
  have hfollows : (levels Registry.library id limitReached (levelsLeft c)).Follows w c.depth id
      ⟨evaluate Registry.library, call Registry.library⟩ :=
    follows_evaluation Registry.ignoresLimits_library limitReached (Nat.lt_succ_self _)
  have hrun := run_evaluate Registry.library e c
  rcases hfollows.eval e c rfl with ⟨err, herr, herror⟩ | ⟨result, d, -, h₁, h₂⟩
  · rw [(congrArg Prod.fst hrun).trans herror] at h
    exact absurd herr (Bool.eq_false_iff.mp h)
  · rw [hrun]
    exact (congrArg Prod.fst h₂).trans (congrArg Prod.fst h₁).symm

/-- The number of items from one to three, where no call goes deeper than one and no range is longer
than three. -/
theorem result_under_wider_limits_count :
    let c : Context := { limits := { depth := 1, range := 3 } }
    let e : Expr := .call (.simple "count")
      [.value (.binary .range (.literal (.integer 1)) (.literal (.integer 3)))]
    c.limits.depth ≤ 2 ∧ c.limits.range ≤ 10 ∧
      hitsLimit ((evaluate Registry.library e).run.run c).1 = false ∧
      ((evaluate Registry.library e).run.run { c with limits := { depth := 2, range := 10 } }).1 =
        ((evaluate Registry.library e).run.run c).1 := by
  intro c e
  have hdepth : c.limits.depth ≤ 2 := by decide
  have hrange : c.limits.range ≤ 10 := by decide
  have hresult : hitsLimit ((evaluate Registry.library e).run.run c).1 = false := by
    decide +kernel
  exact ⟨hdepth, hrange, hresult,
    result_under_wider_limits e c { depth := 2, range := 10 } hdepth hrange hresult⟩

end Eval

end TreeQuery
