import TreeQuery.Item.Equality
import TreeQuery.Proofs.Evaluation.Scopes
import TreeQuery.Proofs.Evaluation.Unchanged
import TreeQuery.Proofs.Evaluation.WellFormed
import TreeQuery.Proofs.Item.Flat

/-!
# Several bindings and one after the other

An expression with several bindings has the value of one with the first binding around one with the
others. In `let`, all bindings lie in one scope, and the nested form has a scope for each: what is found
is the same. In `for`, the nested form splices the values in two steps, which is the same for flat
values. In `some` and `every`, the truth of the inner form is the truth it is asked for.
-/

namespace TreeQuery

/-- A function that sees scopes only by looking up variables, and gives values with a property for
values that have it, if the functions that it calls do so. -/
def LibraryFunction.SeesAlike (W : Item → Prop) (f : LibraryFunction) : Prop :=
  f.Related W (Eval.SeesAlike W) ()

namespace Eval

open Context

variable {α β : Type} {W : Item → Prop} {registry : Registry} {deeper : Deeper}

/-! ### `for` -/

private theorem inScope_map (f : α → β) (m : Eval α) : inScope (f <$> m) = f <$> inScope m := by
  refine ExceptT.ext (funext fun c => ?_)
  rw [map_eq_pure_bind, map_eq_pure_bind]
  change (inScope _).run.run c = (_ >>= _ : Eval β).run.run c
  rw [run_bind, run_inScope, run_inScope, run_bind]
  rcases m.run.run c.enter with ⟨_ | a, d⟩ <;> rfl

private theorem mapM_map {γ : Type} (g : β → γ) (f : α → Eval β) (as : List α) :
    as.mapM (fun a => g <$> f a) = List.map g <$> as.mapM f := by
  induction as with
  | nil => rfl
  | cons a as ih =>
    rw [List.mapM_cons, List.mapM_cons, ih]
    simp only [map_eq_pure_bind, bind_assoc, pure_bind, List.map_cons]

/-- What an evaluation gives for every item of a source, with a variable bound to the item. -/
def choices (registry : Registry) (deeper : Deeper) (b : Binding) (m : Eval α) : Eval (List α) := do
  let value ← expr registry deeper b.value
  value.items.mapM fun item => inScope do
    bindVariable b.name item
    m

private theorem choices_map (f : α → β) (b : Binding) (m : Eval α) :
    choices registry deeper b (f <$> m) = List.map f <$> choices registry deeper b m := by
  have hbody (item : Item) :
      inScope (bindVariable b.name item >>= fun _ => f <$> m) =
        f <$> inScope (bindVariable b.name item >>= fun _ => m) := by
    rw [← inScope_map]
    simp only [map_eq_pure_bind, bind_assoc]
  unfold choices
  simp only [hbody, mapM_map]
  simp only [map_eq_pure_bind, bind_assoc]

private theorem forEach_cons (b : Binding) (rest : List Binding) (body : Eval Item) :
    forEach registry deeper body (b :: rest) =
      List.flatten <$> choices registry deeper b (forEach registry deeper body rest) := by
  obtain ⟨name, e⟩ := b
  simp only [forEach, choices, map_eq_pure_bind, bind_assoc]

private theorem expr_forEach (bindings : List Binding) (body : Expr) :
    expr registry deeper (.forEach bindings body) =
      Item.ofList <$> forEach registry deeper (expr registry deeper body) bindings := by
  rw [expr, map_eq_pure_bind]

/-- All values are put together at once. -/
theorem expr_forEach_cons (b : Binding) (rest : List Binding) (body : Expr) :
    expr registry deeper (.forEach (b :: rest) body) =
      (fun lists => .ofList lists.flatten) <$>
        choices registry deeper b (forEach registry deeper (expr registry deeper body) rest) := by
  rw [expr_forEach, forEach_cons, Functor.map_map]

/-- The values of the other bindings are put together for each item first. -/
theorem expr_forEach_nested (b : Binding) (rest : List Binding) (body : Expr) :
    expr registry deeper (.forEach [b] (.forEach rest body)) =
      (fun lists => .ofList (lists.map .ofList)) <$>
        choices registry deeper b (forEach registry deeper (expr registry deeper body) rest) := by
  have hinner : forEach registry deeper (expr registry deeper (.forEach rest body)) [] =
      (fun values => [Item.ofList values]) <$>
        forEach registry deeper (expr registry deeper body) rest := by
    rw [forEach, expr_forEach, map_eq_pure_bind, map_eq_pure_bind, bind_assoc]
    simp only [pure_bind]
  have hsingle (lists : List (List Item)) :
      (lists.map fun values => [Item.ofList values]).flatten = lists.map .ofList := by
    induction lists with
    | nil => rfl
    | cons values lists ih => rw [List.map_cons, List.flatten_cons, ih, List.map_cons]; rfl
  rw [expr_forEach_cons, hinner, choices_map, Functor.map_map]
  simp only [hsingle]

/-! ### `let` -/

/-- What is done after a body of a scope may be done in a scope of its own inside, because the same is
found there and both scopes are dropped. -/
theorem BindsAlike.inScope_inner {i : Unit} {P : α → Prop} {Q : β → Prop} {m : Eval α}
    {f : α → Eval β} (hm : BindsAlike W i P m m) (hf : ∀ a, P a → BindsAlike W i Q (f a) (f a)) :
    SeesAlike W i Q (Eval.inScope (m >>= f)) (Eval.inScope (m >>= fun a => Eval.inScope (f a))) := by
  intro c d hcd
  obtain ⟨hc, hd, halike, heq, hgives⟩ := hm c.enter d.enter hcd.enter
  rcases h₁ : m.run.run c.enter with ⟨r, c'⟩
  rcases h₂ : m.run.run d.enter with ⟨r', d'⟩
  simp only [h₁, h₂] at hc hd halike heq hgives
  subst heq
  simp only [run_inScope, run_bind, h₁, h₂]
  cases r with
  | error e => exact ⟨hc.leave, hd.leave, rfl, .error e⟩
  | ok a =>
    obtain ⟨hc', hd', -, heq', hgives'⟩ := hf a (hgives a rfl) c' d'.enter halike.enter_right
    simp only [hd'.leave]
    exact ⟨(hc.trans hc').leave, hd.leave, heq', hgives'⟩

/-- One scope for all bindings is as good as one for the first and another one for the others. -/
theorem seesAlike_letIn (hW : Item.Closed W)
    (hd : Deeper.Related W (SeesAlike W) registry registry () deeper deeper) (b : Binding)
    (rest : List Binding) (body : Expr) :
    SeesAlike W () W (expr registry deeper (.letIn (b :: rest) body))
      (expr registry deeper (.letIn [b] (.letIn rest body))) := by
  obtain ⟨name, e⟩ := b
  have hR := congruence_seesAlike hW
  have hexpr (e : Expr) : SeesAlike W () W (expr registry deeper e) (expr registry deeper e) :=
    hR.expr (.refl registry) (fun _ _ => hd) e
  have hbound : BindsAlike W () (fun _ => True)
      (expr registry deeper e >>= fun value => bindVariable name value)
      (expr registry deeper e >>= fun value => bindVariable name value) :=
    hR.bindBody (hR.body (hexpr e)) fun _ h => hR.bindVariable name h
  have hrest : BindsAlike W () W (letIn registry deeper (expr registry deeper body) rest)
      (letIn registry deeper (expr registry deeper body) rest) :=
    hR.letIn (.refl registry) (fun _ _ => hd) rest (hexpr body)
  have hinner := hbound.inScope_inner fun _ _ => hrest
  simpa only [expr, letIn, bind_assoc] using hinner

/-! ### `some` and `every` -/

/-- The truth of a truth value is this value. -/
theorem truth_boolean (m : Eval Bool) : truth (do return .boolean (← m)) = m := by
  simp only [truth, bind_assoc, pure_bind]
  exact bind_pure m

/-- Each binding of `some` and `every` has scopes of its own in both forms. -/
theorem expr_quantified_nested (quantifier : Quantifier) (b : Binding) (rest : List Binding)
    (condition : Expr) :
    expr registry deeper (.quantified quantifier [b] (.quantified quantifier rest condition)) =
      expr registry deeper (.quantified quantifier (b :: rest) condition) := by
  obtain ⟨name, e⟩ := b
  simp only [expr, quantified, truth_boolean]

/-! ### Links -/

private theorem links_append (v : Item) (before after : List Link) :
    links registry deeper v (before ++ after) =
      links registry deeper v before >>= fun w => links registry deeper w after := by
  induction before generalizing v with
  | nil => simp [links]
  | cons l before ih => cases l <;> simp [links, ih]

/-- A link behind an expression works on the value of the expression. -/
theorem expr_link (e : Expr) (l : Link) :
    expr registry deeper (e.link l) =
      expr registry deeper e >>= fun v => links registry deeper v [l] := by
  cases e with
  | chain base before => simp [Expr.link, expr, links_append]
  | _ => rfl

/-! ### Whole evaluations -/

/-- For flat values it is the same whether they are put together in one step or in two. -/
theorem run_forEach_nested
    (hd : Deeper.Related Item.Flat (SeesAlike Item.Flat) registry registry () deeper deeper)
    (b : Binding) (rest : List Binding) (body : Expr) {c : Context} (hc : c.Linked)
    (hflat : c.Shows Item.Flat) :
    (expr registry deeper (.forEach (b :: rest) body)).run.run c =
      (expr registry deeper (.forEach [b] (.forEach rest body))).run.run c := by
  have hR := congruence_seesAlike Item.closed_flat
  have hexpr (e : Expr) : SeesAlike Item.Flat () Item.Flat (expr registry deeper e)
      (expr registry deeper e) := hR.expr (.refl registry) (fun _ _ => hd) e
  have hrest := hR.forEach (.refl registry) (fun _ _ => hd) rest (hexpr body)
  have hchoices : SeesAlike Item.Flat () (fun lists => ∀ l ∈ lists, AllHave Item.Flat l)
      (choices registry deeper b (forEach registry deeper (expr registry deeper body) rest))
      (choices registry deeper b (forEach registry deeper (expr registry deeper body) rest)) := by
    refine hR.bind (hexpr b.value) fun value h => hR.mapM fun item hitem => hR.inScope ?_
    refine hR.bindBody (hR.bindVariable b.name (h.items item hitem)) fun _ _ => ?_
    exact hR.body hrest
  obtain ⟨-, -, -, hlists⟩ := hchoices c c (.refl hc hflat)
  rw [expr_forEach_cons, expr_forEach_nested, map_eq_pure_bind, map_eq_pure_bind, run_bind, run_bind]
  split
  · next lists d h =>
    rw [h] at hlists
    rw [Item.ofList_map_ofList (hlists lists rfl)]
  · rfl

/-- So many levels of calls see scopes only by looking up variables. -/
theorem seesAlike_levels (hW : Item.Closed W) (hr : ∀ f ∈ registry.functions, f.SeesAlike W)
    (levels : Nat) :
    Deeper.Related W (SeesAlike W) registry registry ()
      ⟨exprAt registry levels, callAt registry levels⟩
      ⟨exprAt registry levels, callAt registry levels⟩ := by
  refine (congruence_seesAlike hW).levels (fun _ => hr) (fun _ => ?_) levels ()
  refine seesAlike_reading (fun c d hcd => ?_) fun _ _ => .error _
  rw [hcd.limits]

/-- A function of a host that binds a variable in a scope of its own sees scopes in this way. -/
theorem seesAlike_hostCall (hW : Item.Closed W) (hnil : W .nil) : hostCall.SeesAlike W := by
  have hR := congruence_seesAlike hW
  intro call₁ call₂ hc args hargs
  refine hR.inScope (hR.bindBody (hR.bindVariable _ (hW.integer 1)) fun _ _ => hR.body ?_)
  refine hc _ [] ?_ allHave_nil
  cases args with
  | nil => exact hnil
  | cons value values => exact (allHave_cons.mp hargs).1

/-- An expression with several bindings ends as the one does that has the first of them around the
others: with the same value or the same error, and in the same context. Of `for` this asks that the values
found in the context are flat: at every depth, the items of a sequence are neither sequences nor errors. Of
the other forms it asks nothing of the values. -/
theorem evaluate_bindings_nested (registry : Registry)
    (hhost : ∀ f ∈ registry.functions, f ∈ Registry.library.functions ∨
      f.SeesAlike (fun _ => True) ∧ f.SeesAlike Item.Flat)
    (b : Binding) (rest : List Binding) (body : Expr) (c : Context) (hc : c.Linked) :
    (c.Shows Item.Flat →
      (evaluate registry (.forEach (b :: rest) body)).run.run c =
        (evaluate registry (.forEach [b] (.forEach rest body))).run.run c) ∧
    (evaluate registry (.letIn (b :: rest) body)).run.run c =
      (evaluate registry (.letIn [b] (.letIn rest body))).run.run c ∧
    ∀ quantifier,
      (evaluate registry (.quantified quantifier (b :: rest) body)).run.run c =
        (evaluate registry (.quantified quantifier [b] (.quantified quantifier rest body))).run.run
          c := by
  have hany : ∀ f ∈ registry.functions, f.SeesAlike (fun _ => True) := by
    intro f hf
    rcases hhost f hf with hf | ⟨hf, -⟩
    · exact Registry.related_library (congruence_seesAlike Item.closed_true) f hf
    · exact hf
  have hkept : ∀ f ∈ registry.functions, f.SeesAlike Item.Flat := by
    intro f hf
    rcases hhost f hf with hf | ⟨-, hf⟩
    · exact Registry.related_library (congruence_seesAlike Item.closed_flat) f hf
    · exact hf
  refine ⟨fun hflat => ?_, ?_, fun quantifier => ?_⟩
  · rw [run_evaluate_expr, run_evaluate_expr]
    exact run_forEach_nested (seesAlike_levels Item.closed_flat hkept _) b rest body hc hflat
  · rw [run_evaluate_expr, run_evaluate_expr]
    have hshows : c.Shows fun _ => True := ⟨fun _ _ _ => trivial, fun _ _ => trivial⟩
    obtain ⟨hleft, hright, hresult, -⟩ := seesAlike_letIn Item.closed_true
      (seesAlike_levels Item.closed_true hany _) b rest body c c (.refl hc hshows)
    exact Prod.ext hresult (hleft.trans hright.symm)
  · rw [run_evaluate_expr, run_evaluate_expr, expr_quantified_nested]

/-- A second binding of the same variable hides the first one from a function that is called in both
forms, and that reads the variable where it is called. -/
theorem evaluate_bindings_nested_shadowed :
    (∀ f ∈ (Registry.library.register hostCall).functions, f ∈ Registry.library.functions ∨
      f.SeesAlike (fun _ => True) ∧ f.SeesAlike Item.Flat) ∧
    Context.withPair.Linked ∧ Context.withPair.Shows Item.Flat ∧
    let outer : Binding := ⟨.simple "x", .var (.simple "x")⟩
    let inner : Binding := ⟨.simple "x", .sequence [.var (.simple "x"), .literal (.integer 3)]⟩
    let body : Expr := .chain (.inlineFunction [] none (.var (.simple "x"))) [.call []]
    let gives (e : Expr) (value : Item) : Prop :=
      ((evaluate (Registry.library.register hostCall) e).run.run Context.withPair).1.toOption.any
        (·.same value) = true
    gives (.forEach [outer] (.forEach [inner] body))
        (.sequence [.integer 1, .integer 3, .integer 2, .integer 3]) ∧
      gives (.letIn [outer] (.letIn [inner] body))
        (.sequence [.integer 1, .integer 2, .integer 3]) ∧
      gives (.quantified .every [outer] (.quantified .every [inner] body)) (.boolean true) := by
  have hpair : (Item.sequence [.integer 1, .integer 2]).Flat :=
    .sequence (by simp [Item.Plain, Item.isSequence, Item.error?]) (by simp [Item.Flat.integer])
  have hempty : Context.Shows Item.Flat {} := by
    refine ⟨fun name value hvalue => ?_, fun f hf => ?_⟩
    · have hnone : ({} : Context).lookup? name = none := rfl
      rw [hnone] at hvalue
      contradiction
    · cases hf
  have hbound := (Alike.refl linked_initial hempty).bind (.simple "x") hpair
  have hhost : ∀ f ∈ (Registry.library.register hostCall).functions,
      f ∈ Registry.library.functions ∨ f.SeesAlike (fun _ => True) ∧ f.SeesAlike Item.Flat := by
    intro f hf
    simp only [Registry.register, List.mem_append, List.mem_filter, List.mem_singleton] at hf
    obtain ⟨hf, -⟩ | rfl := hf
    · exact Or.inl hf
    · exact Or.inr ⟨seesAlike_hostCall Item.closed_true trivial,
        seesAlike_hostCall Item.closed_flat .nil⟩
  refine ⟨hhost, hbound.left, hbound.shows, ?_⟩
  intro outer inner body gives
  obtain ⟨hfor, hlet, hquantified⟩ :=
    evaluate_bindings_nested _ hhost outer [inner] body Context.withPair hbound.left
  simp only [gives]
  rw [← hfor hbound.shows, ← hlet, ← hquantified .every]
  decide +kernel

end Eval

end TreeQuery
