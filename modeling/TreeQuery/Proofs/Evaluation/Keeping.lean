import TreeQuery.Proofs.Evaluation.Related

/-!
# Evaluations that put the context back

Scopes are pushed and dropped by hand, the focus is replaced and restored, and the depth is counted
up and down. `Keeps` says of an evaluation that all of this is undone when it ends, with a value or
with an error. Bodies of scopes may bind variables in the scope that was made for them, which is
`BindsOnly`; leaving the scope turns that into `Keeps` again.
-/

namespace TreeQuery

namespace Context

/-- A context with a scope of its own. -/
def enter (c : Context) : Context :=
  { c with scopes := c.scopes.push ⟨some c.current, []⟩, current := c.scopes.size }

/-- A context in which the current scope of another one is current again and those made later are
dropped. -/
def leave (c d : Context) : Context :=
  { d with scopes := d.scopes.shrink c.scopes.size, current := c.current }

/-- The second context differs from the first one in bindings of the current scope only. -/
def BindsTo (c d : Context) : Prop :=
  ∃ scopes, d = { c with scopes } ∧ scopes.size = c.scopes.size ∧
    ∀ i, i ≠ c.current → scopes[i]? = c.scopes[i]?

theorem BindsTo.refl (c : Context) : c.BindsTo c := ⟨c.scopes, rfl, rfl, fun _ _ => rfl⟩

theorem BindsTo.trans {c d e : Context} (h : c.BindsTo d) (h' : d.BindsTo e) : c.BindsTo e := by
  obtain ⟨scopes, rfl, hsize, hother⟩ := h
  obtain ⟨scopes', rfl, hsize', hother'⟩ := h'
  exact ⟨scopes', rfl, hsize'.trans hsize, fun i hi => (hother' i hi).trans (hother i hi)⟩

/-- Binding a variable changes nothing but the current scope. -/
theorem bindsTo_bind (c : Context) (name : QName) (value : Item) : c.BindsTo (c.bind name value) := by
  refine ⟨c.scopes.modify c.current fun s => s.bind name value, rfl, Array.size_modify, ?_⟩
  intro i hi
  rw [Array.getElem?_modify, if_neg (Ne.symm hi)]

/-- Dropping the scope that was made for a body drops everything that the body has bound. -/
theorem BindsTo.leave {c d : Context} (h : c.enter.BindsTo d) : c.leave d = c := by
  obtain ⟨scopes, rfl, hsize, hother⟩ := h
  have hscopes : scopes.shrink c.scopes.size = c.scopes := by
    rw [enter, Array.size_push] at hsize
    apply Array.ext
    · rw [Array.size_shrink]
      omega
    · intro i hi hi'
      have hne : i ≠ c.scopes.size := Nat.ne_of_lt hi'
      have he := hother i hne
      rw [enter, Array.getElem?_eq_getElem (by omega), Array.getElem?_push_lt hi'] at he
      rw [Array.getElem_shrink]
      exact Option.some.inj he
  simp only [Context.leave, enter, hscopes]

end Context

namespace Eval

variable {α β : Type}

/-- Running two evaluations in turn: an error of the first one is the result of both. -/
theorem run_bind (m : Eval α) (f : α → Eval β) (c : Context) :
    (m >>= f).run.run c =
      match m.run.run c with
      | (.ok a, d) => (f a).run.run d
      | (.error e, d) => (.error e, d) := by
  simp only [ExceptT.run_bind, StateT.run_bind]
  rcases m.run.run c with ⟨_ | _, d⟩ <;> rfl

/-- Behind a value the second evaluation goes on. -/
theorem run_bind_ok {m : Eval α} {a : α} {c d : Context} (h : m.run.run c = (.ok a, d))
    (f : α → Eval β) : (m >>= f).run.run c = (f a).run.run d := by
  rw [run_bind, h]

/-- Reading gives what the context says and leaves the context. -/
theorem run_reading (f : Context → Except EvalError α) (c : Context) :
    (reading f).run.run c = (f c, c) :=
  rfl

/-- A scope of its own is entered before an evaluation and left behind it. -/
theorem run_inScope (m : Eval α) (c : Context) :
    (inScope m).run.run c = ((m.run.run c.enter).1, c.leave (m.run.run c.enter).2) :=
  rfl

/-- The focus is replaced for an evaluation and put back behind it. -/
theorem run_withFocus (focus : Option Focus) (m : Eval α) (c : Context) :
    (withFocus focus m).run.run c =
      let r := m.run.run { c with focus }
      (r.1, { r.2 with focus := c.focus }) :=
  rfl

/-- One level deeper an evaluation runs where the limits allow it, and the depth is counted back behind
it. -/
theorem run_descend (m : Eval α) (c : Context) :
    (descend m).run.run c =
      if c.limits.depth ≤ c.depth then (.error (.recursionLimit c.limits.depth), c)
      else
        let r := m.run.run { c with depth := c.depth + 1 }
        (r.1, { r.2 with depth := r.2.depth - 1 }) :=
  rfl

/-- An evaluation all of whose results have a property. -/
def Results (P : α → Prop) (m : Eval α) : Prop := ∀ c, Gives P (m.run.run c).1

/-- Two evaluations in turn give what the second one gives of every result of the first. -/
theorem Results.bind {P : α → Prop} {Q : β → Prop} {m : Eval α} {f : α → Eval β}
    (hm : Results P m) (hf : ∀ a, P a → Results Q (f a)) : Results Q (m >>= f) := by
  intro c
  have hc := hm c
  rw [run_bind]
  split
  · next a d h =>
    rw [h] at hc
    exact hf a (hc a rfl) d
  · exact .error _

private theorem Results.descend {P : α → Prop} {m : Eval α} (hm : Results P m) :
    Results P (descend m) := by
  intro c
  rw [run_descend]
  split
  · exact .error _
  · exact hm _

/-- An evaluation that leaves every context as it was. -/
def Keeps (m : Eval α) : Prop := ∀ c, (m.run.run c).2 = c

theorem keeps_pure (a : α) : Keeps (pure a) := fun _ => rfl

private theorem keeps_throw (e : EvalError) : Keeps (throw e : Eval α) := fun _ => rfl

theorem keeps_reading (f : Context → Except EvalError α) : Keeps (reading f) := fun _ => rfl

theorem keeps_get : Keeps (get : Eval Context) := fun _ => rfl

private theorem Keeps.bindResults {P : α → Prop} {m : Eval α} {f : α → Eval β} (hm : Keeps m)
    (hP : Results P m) (hf : ∀ a, P a → Keeps (f a)) : Keeps (m >>= f) := by
  intro c
  have hc := hm c
  have hresult := hP c
  rw [run_bind]
  split
  · next a d h =>
    rw [h] at hc hresult
    rw [hf a (hresult a rfl) d]
    exact hc
  · next e d h =>
    rw [h] at hc
    exact hc

/-- Two evaluations in turn keep the context if each does. -/
theorem Keeps.bind {m : Eval α} {f : α → Eval β} (hm : Keeps m) (hf : ∀ a, Keeps (f a)) :
    Keeps (m >>= f) :=
  hm.bindResults (P := fun _ => True) (fun _ _ _ => trivial) fun a _ => hf a

/-- An evaluation that binds variables in the current scope and changes nothing else. -/
def BindsOnly (m : Eval α) : Prop := ∀ c : Context, c.BindsTo (m.run.run c).2

/-- To keep the context is to bind no variable. -/
theorem Keeps.bindsOnly {m : Eval α} (hm : Keeps m) : BindsOnly m := by
  intro c
  rw [hm c]
  exact .refl c

/-- Binding a variable does nothing else. -/
theorem bindsOnly_bindVariable (name : QName) (value : Item) :
    BindsOnly (bindVariable name value) := fun c => c.bindsTo_bind name value

private theorem BindsOnly.bindResults {P : α → Prop} {m : Eval α} {f : α → Eval β} (hm : BindsOnly m)
    (hP : Results P m) (hf : ∀ a, P a → BindsOnly (f a)) : BindsOnly (m >>= f) := by
  intro c
  have hc := hm c
  have hresult := hP c
  rw [run_bind]
  split
  · next a d h =>
    rw [h] at hc hresult
    exact hc.trans (hf a (hresult a rfl) d)
  · next e d h =>
    rw [h] at hc
    exact hc

/-- Two evaluations in turn bind only variables if each does. -/
theorem BindsOnly.bind {m : Eval α} {f : α → Eval β} (hm : BindsOnly m)
    (hf : ∀ a, BindsOnly (f a)) : BindsOnly (m >>= f) :=
  hm.bindResults (P := fun _ => True) (fun _ _ _ => trivial) fun a _ => hf a

/-- In a scope of its own an evaluation that binds variables keeps the context. -/
theorem BindsOnly.keeps_inScope {m : Eval α} (hm : BindsOnly m) : Keeps (inScope m) :=
  fun c => (hm c.enter).leave

/-- With another focus an evaluation still keeps the context. -/
theorem Keeps.withFocus {m : Eval α} (hm : Keeps m) (focus : Option Focus) :
    Keeps (withFocus focus m) := by
  intro c
  simp only [run_withFocus, hm { c with focus }]

private theorem Keeps.descend {m : Eval α} (hm : Keeps m) : Keeps (descend m) := by
  intro c
  rw [run_descend]
  split
  · rfl
  · simp only [hm { c with depth := c.depth + 1 }, Nat.add_sub_cancel]

/-- The first evaluation keeps the context. -/
abbrev FirstKeeps : EvalRelation Unit := fun _ _ P m _ => Keeps m ∧ Results P m

/-- To keep the context goes up from what evaluations are made of. -/
theorem congruence_keeps : Congruence (fun _ => True) (fun _ _ => True) FirstKeeps
    (fun _ _ P m _ => BindsOnly m ∧ Results P m) where
  closed := Item.closed_true
  pure h := ⟨keeps_pure _, fun _ => .ok h⟩
  throw e := ⟨keeps_throw e, fun _ => .error e⟩
  bind hm hf := ⟨hm.1.bindResults hm.2 fun a h => (hf a h).1, hm.2.bind fun a h => (hf a h).2⟩
  reading _ h := ⟨keeps_reading _, fun c => h c fun _ _ => trivial⟩
  variableValue _ := ⟨keeps_reading _, fun _ _ _ => trivial⟩
  range _ _ := ⟨keeps_reading _, fun _ _ _ => trivial⟩
  descend hm := ⟨(hm () trivial).1.descend, (hm () trivial).2.descend⟩
  withFocus _ hm := ⟨hm.1.withFocus _, fun _ => hm.2 _⟩
  inScope hm := ⟨hm.1.keeps_inScope, fun _ => hm.2 _⟩
  body hm := ⟨hm.1.bindsOnly, hm.2⟩
  bindVariable name _ := ⟨bindsOnly_bindVariable name _, fun _ _ _ => trivial⟩
  bindBody hm hf := ⟨hm.1.bindResults hm.2 fun a h => (hf a h).1, hm.2.bind fun a h => (hf a h).2⟩

end Eval

/-! ### Functions that can be called by name -/

/-- A function that keeps the context, if the functions that it calls do. -/
def LibraryFunction.Keeps (f : LibraryFunction) : Prop :=
  ∀ call : Caller, (∀ g args, Eval.Keeps (call g args)) → ∀ args, Eval.Keeps (f.run call args)

/-- A registry of functions that keep the context. -/
def Registry.Keeps (r : Registry) : Prop := ∀ f ∈ r.functions, f.Keeps

/-- What is one level deeper keeps the context. -/
structure Deeper.Keeps (deeper : Deeper) : Prop where
  /-- The bodies of functions do. -/
  eval : ∀ e, Eval.Keeps (deeper.eval e)
  /-- The calls of values do. -/
  call : ∀ f args, Eval.Keeps (deeper.call f args)

/-- A function that keeps the context is related to itself in this sense. -/
theorem LibraryFunction.Keeps.related {f : LibraryFunction} (hf : f.Keeps) :
    f.Related (fun _ => True) Eval.FirstKeeps () :=
  fun _ _ hc args _ => ⟨hf _ (fun g args => (hc g args trivial fun _ _ => trivial).1) args,
    fun _ _ _ => trivial⟩

namespace Eval

variable {registry : Registry} {deeper : Deeper}

/-- One level of calls: an expression keeps the context if the calls in it do. -/
theorem keeps_expr (hr : registry.Keeps) (hd : deeper.Keeps) (e : Expr) :
    Keeps (expr registry deeper e) := by
  have hdeeper : Deeper.Related (fun _ => True) FirstKeeps registry registry () deeper deeper :=
    ⟨fun e => ⟨hd.eval e, fun _ _ _ => trivial⟩,
      fun f args _ _ => ⟨hd.call f args, fun _ _ _ => trivial⟩,
      fun hf _ _ => ⟨hr _ (Registry.mem_of_resolve? hf) _ hd.call _, fun _ _ _ => trivial⟩⟩
  exact (congruence_keeps.expr (i := ()) (.refl registry) (fun _ _ => hdeeper) e).1

/-- So many levels of calls keep the context. -/
theorem keeps_levels (hr : registry.Keeps) (levels : Nat) :
    Deeper.Keeps ⟨exprAt registry levels, callAt registry levels⟩ := by
  have hlevels := congruence_keeps.levels (fun _ f hf => (hr f hf).related)
    (fun _ => ⟨keeps_reading _, fun _ => .error _⟩) levels ()
  exact ⟨fun e => (hlevels.eval e).1, fun f args => (hlevels.call f args trivial fun _ _ => trivial).1⟩

/-- What stands for the calls below in an evaluation from a context. -/
def deeperFrom (registry : Registry) (c : Context) : Deeper :=
  ⟨exprAt registry (c.limits.depth - c.depth), callAt registry (c.limits.depth - c.depth)⟩

/-- An evaluation is that of the expression, with the calls that its context has left. -/
theorem run_evaluate_expr (e : Expr) (c : Context) :
    (evaluate registry e).run.run c = (expr registry (deeperFrom registry c) e).run.run c := by
  change (exprAt registry (levelsLeft c) e).run.run c = _
  rw [levelsLeft, exprAt, deeperFrom]

/-- The calls that a context has left keep the context. -/
theorem keeps_deeperFrom (hr : registry.Keeps) (c : Context) : (deeperFrom registry c).Keeps :=
  keeps_levels hr _

/-- Over functions that keep the context an expression with a result leaves the context with it. -/
theorem run_expr_of_evaluate (hr : registry.Keeps) {e : Expr} {c : Context} {r : Except EvalError Item}
    (h : ((evaluate registry e).run.run c).1 = r) :
    (expr registry (deeperFrom registry c) e).run.run c = (r, c) := by
  rw [run_evaluate_expr] at h
  exact Prod.ext h (keeps_expr hr (keeps_deeperFrom hr c) e c)

end Eval

end TreeQuery
