import TreeQuery.Evaluation
import TreeQuery.Proofs.Item.Closed

/-!
# Relations between evaluations

All evaluations are made of a few: those that read the context, bind a variable, or evaluate others in
a scope, with a focus or one call deeper, and of ways to put these together. So a relation that holds
of these, and is kept by the ways to put evaluations together, holds of every expression and itself:
by induction on expressions for one level of calls, if what is called one level deeper is related.

The relation comes with a property of the results, so that what follows can rely on it, and with one
of all values, which is closed. The bodies of scopes, which may bind variables, are related in their
own way. Two related evaluations may run the functions of two registries, and what they do one level
deeper may be different too.
-/

namespace TreeQuery

/-- A context without its variables, its limits and its depth. -/
def Context.bare (c : Context) : Context :=
  { forest := c.forest, focus := c.focus, root := c.root }

/-- Whether the context item has a property, if there is one. -/
def Context.FocusHas (W : Item → Prop) (c : Context) : Prop := ∀ f, c.focus = some f → W f.item

/-- The context item has the property, if there is one. -/
theorem Context.FocusHas.gives_contextItem {W : Item → Prop} {c : Context} (hc : c.FocusHas W) :
    Gives W c.contextItem := by
  unfold contextItem getFocus
  split
  · next f hf => exact .ok (hc f hf)
  · exact .error _

/-- A function that a name stands for is in the registry. -/
theorem Registry.mem_of_resolve? {r : Registry} {name : QName} {f : LibraryFunction}
    (h : r.resolve? name = some f) : f ∈ r.functions := by
  simp only [Registry.resolve?, Registry.find?] at h
  split at h <;> exact List.mem_of_find?_eq_some h

/-- Two registries that know the same names for the same numbers of arguments. -/
def Registry.SameSignatures (r₁ r₂ : Registry) : Prop :=
  ∀ name, (r₁.resolve? name).map (fun f => (f.least, f.most)) =
    (r₂.resolve? name).map fun f => (f.least, f.most)

namespace Registry.SameSignatures

variable {r₁ r₂ : Registry} {name : QName}

theorem refl (r : Registry) : SameSignatures r r := fun _ => rfl

/-- Both registries have a function of this name that takes the same arguments, or neither has. -/
theorem cases (h : SameSignatures r₁ r₂) (name : QName) :
    (r₁.resolve? name = none ∧ r₂.resolve? name = none) ∨
      ∃ f g, r₁.resolve? name = some f ∧ r₂.resolve? name = some g ∧ f.least = g.least ∧
        f.most = g.most := by
  have hname := h name
  cases h₁ : r₁.resolve? name with
  | none =>
    rw [h₁, Option.map_none, eq_comm, Option.map_eq_none_iff] at hname
    exact Or.inl ⟨rfl, hname⟩
  | some f =>
    rw [h₁, Option.map_some, eq_comm, Option.map_eq_some_iff] at hname
    obtain ⟨g, hg, heq⟩ := hname
    obtain ⟨hleast, hmost⟩ := Prod.mk.inj heq
    exact Or.inr ⟨f, g, rfl, hg, hleast.symm, hmost.symm⟩

/-- The same functions can be referred to. -/
theorem reference (h : SameSignatures r₁ r₂) (name : QName) (arity : Nat) :
    r₁.reference name arity = r₂.reference name arity := by
  unfold Registry.reference Registry.knows
  rcases h.cases name with ⟨h₁, h₂⟩ | ⟨f, g, h₁, h₂, hleast, hmost⟩
  · rw [h₁, h₂]
  · simp only [h₁, h₂, Option.any_some, LibraryFunction.accepts, hleast, hmost]

end Registry.SameSignatures

/-- A relation between evaluations with a property of their results. Where calls are nested in
different ways, it may be a different one. -/
abbrev EvalRelation (ι : Type) : Type 1 := ι → {α : Type} → (α → Prop) → Eval α → Eval α → Prop

/-- What is called one level deeper is related. -/
structure Deeper.Related {ι : Type} (W : Item → Prop) (R : EvalRelation ι) (r₁ r₂ : Registry) (i : ι)
    (d₁ d₂ : Deeper) : Prop where
  /-- The bodies of functions are. -/
  eval (e : Expr) : R i W (d₁.eval e) (d₂.eval e)
  /-- The calls of values are. -/
  call (f : Item) (args : List Item) :
    W f → AllHave W args → R i W (d₁.call f args) (d₂.call f args)
  /-- The functions of the registries are. -/
  run {name : QName} {f g : LibraryFunction} {args : List Item} : r₁.resolve? name = some f →
    r₂.resolve? name = some g → AllHave W args → R i W (f.run d₁.call args) (g.run d₂.call args)

namespace Eval

/-- A relation between evaluations that putting them together keeps, and one between bodies of
scopes. `W` holds of all values, and `below` says which levels are one call deeper. -/
structure Congruence {ι : Type} (W : Item → Prop) (below : ι → ι → Prop) (R S : EvalRelation ι) :
    Prop where
  closed : Item.Closed W
  pure {i : ι} {α : Type} {P : α → Prop} {a : α} : P a → R i P (pure a) (pure a)
  throw {i : ι} {α : Type} {P : α → Prop} (e : EvalError) : R i P (throw e) (throw e)
  bind {i : ι} {α β : Type} {P : α → Prop} {Q : β → Prop} {m₁ m₂ : Eval α} {f₁ f₂ : α → Eval β} :
    R i P m₁ m₂ → (∀ a, P a → R i Q (f₁ a) (f₂ a)) → R i Q (m₁ >>= f₁) (m₂ >>= f₂)
  /-- What is read is neither a variable nor a limit. -/
  reading {i : ι} {α : Type} {P : α → Prop} {f : Context → Except EvalError α} :
    (∀ c, f c.bare = f c) → (∀ c, c.FocusHas W → Gives P (f c)) → R i P (reading f) (reading f)
  variableValue {i : ι} (name : QName) : R i W (variableValue name) (variableValue name)
  range {i : ι} (left right : Item) :
    R i W (strictBinary .range left right) (strictBinary .range left right)
  descend {i : ι} {α : Type} {P : α → Prop} {m₁ m₂ : Eval α} :
    (∀ j, below i j → R j P m₁ m₂) → R i P (descend m₁) (descend m₂)
  withFocus {i : ι} {α : Type} {P : α → Prop} {focus : Option Focus} {m₁ m₂ : Eval α} :
    (∀ f, focus = some f → W f.item) → R i P m₁ m₂ → R i P (withFocus focus m₁) (withFocus focus m₂)
  inScope {i : ι} {α : Type} {P : α → Prop} {m₁ m₂ : Eval α} :
    S i P m₁ m₂ → R i P (inScope m₁) (inScope m₂)
  body {i : ι} {α : Type} {P : α → Prop} {m₁ m₂ : Eval α} : R i P m₁ m₂ → S i P m₁ m₂
  bindVariable {i : ι} {value : Item} (name : QName) :
    W value → S i (fun _ => True) (bindVariable name value) (bindVariable name value)
  bindBody {i : ι} {α β : Type} {P : α → Prop} {Q : β → Prop} {m₁ m₂ : Eval α}
    {f₁ f₂ : α → Eval β} :
    S i P m₁ m₂ → (∀ a, P a → S i Q (f₁ a) (f₂ a)) → S i Q (m₁ >>= f₁) (m₂ >>= f₂)

namespace Congruence

variable {ι : Type} {W : Item → Prop} {below : ι → ι → Prop} {R S : EvalRelation ι} {i : ι}
  {α β : Type} {P : α → Prop} {Q : β → Prop}

/-! ### Evaluations put together -/

/-- Both branches of a choice are related, so the choices are. -/
theorem ite {p : Prop} [Decidable p] {m₁ m₂ m₁' m₂' : Eval α} (hm : R i P m₁ m₂)
    (hm' : R i P m₁' m₂') : R i P (if p then m₁ else m₁') (if p then m₂ else m₂') := by
  split
  · exact hm
  · exact hm'

section

variable (hR : Congruence W below R S)

include hR

/-- What is read of a value alone. -/
theorem result {r : Except EvalError α} (h : Gives P r) :
    R i P (Eval.reading fun _ => r) (Eval.reading fun _ => r) := hR.reading (fun _ => rfl) fun _ _ => h

/-- Of what is read nothing need be known. -/
theorem readingAny {f : Context → Except EvalError α} (hf : ∀ c, f c.bare = f c) :
    R i (fun _ => True) (Eval.reading f) (Eval.reading f) :=
  hR.reading hf fun _ _ _ _ => trivial

/-- The context item has the property of all values. -/
theorem contextItem : R i W (Eval.reading Context.contextItem) (Eval.reading Context.contextItem) :=
  hR.reading (fun _ => rfl) fun _ hc => hc.gives_contextItem

/-- Evaluating something for each member of a list gives results that all have the property. -/
theorem mapM {f₁ f₂ : α → Eval β} {as : List α} (hf : ∀ a ∈ as, R i Q (f₁ a) (f₂ a)) :
    R i (fun bs => ∀ b ∈ bs, Q b) (as.mapM f₁) (as.mapM f₂) := by
  induction as with
  | nil => exact hR.pure fun _ h => absurd h List.not_mem_nil
  | cons a as ih =>
    rw [List.forall_mem_cons] at hf
    rw [List.mapM_cons, List.mapM_cons]
    refine hR.bind hf.1 fun b hb => hR.bind (ih hf.2) fun bs hbs => hR.pure ?_
    exact List.forall_mem_cons.mpr ⟨hb, hbs⟩

private theorem filterMapM {f₁ f₂ : α → Eval (Option β)} {as : List α}
    (hf : ∀ a ∈ as, R i (fun r => ∀ b, r = some b → Q b) (f₁ a) (f₂ a)) :
    R i (fun bs => ∀ b ∈ bs, Q b) (as.filterMapM f₁) (as.filterMapM f₂) := by
  induction as with
  | nil => exact hR.pure fun _ h => absurd h List.not_mem_nil
  | cons a as ih =>
    rw [List.forall_mem_cons] at hf
    rw [List.filterMapM_cons, List.filterMapM_cons]
    refine hR.bind hf.1 fun r hr => ?_
    cases r with
    | none => exact ih hf.2
    | some b =>
      refine hR.bind (ih hf.2) fun bs hbs => hR.pure ?_
      exact List.forall_mem_cons.mpr ⟨hr b rfl, hbs⟩

/-- What is kept of a list has the property that all its members have. -/
theorem filterM {f₁ f₂ : α → Eval Bool} {as : List α} (hP : ∀ a ∈ as, P a)
    (hf : ∀ a ∈ as, R i (fun _ => True) (f₁ a) (f₂ a)) :
    R i (fun bs => ∀ b ∈ bs, P b) (as.filterM f₁) (as.filterM f₂) := by
  have haux (as acc : List α) (hP : ∀ a ∈ as, P a) (hacc : ∀ a ∈ acc, P a)
      (hf : ∀ a ∈ as, R i (fun _ => True) (f₁ a) (f₂ a)) :
      R i (fun bs => ∀ b ∈ bs, P b) (as.filterAuxM f₁ acc) (as.filterAuxM f₂ acc) := by
    induction as generalizing acc with
    | nil => exact hR.pure hacc
    | cons a as ih =>
      rw [List.forall_mem_cons] at hP hf
      refine hR.bind hf.1 fun kept _ => ih _ hP.2 ?_ hf.2
      cases kept with
      | true => exact List.forall_mem_cons.mpr ⟨hP.1, hacc⟩
      | false => exact hacc
  refine hR.bind (haux as [] hP (fun _ h => absurd h List.not_mem_nil) hf) fun bs hbs =>
    hR.pure fun b hb => ?_
  exact hbs b (List.mem_reverse.mp hb)

/-- Every step of a fold keeps the property. -/
theorem foldlM {f₁ f₂ : β → α → Eval β} {as : List α} {b : β} (hb : Q b)
    (hf : ∀ b, Q b → ∀ a ∈ as, R i Q (f₁ b a) (f₂ b a)) :
    R i Q (as.foldlM f₁ b) (as.foldlM f₂ b) := by
  induction as generalizing b with
  | nil => exact hR.pure hb
  | cons a as ih =>
    rw [List.foldlM_cons, List.foldlM_cons]
    refine hR.bind (hf b hb a List.mem_cons_self) fun b hb => ih hb fun b hb a ha => ?_
    exact hf b hb a (List.mem_cons_of_mem _ ha)

/-- Whether some member of a list passes is found by related evaluations, if the tests are related. -/
theorem anyM {f₁ f₂ : α → Eval Bool} {as : List α}
    (hf : ∀ a ∈ as, R i (fun _ => True) (f₁ a) (f₂ a)) :
    R i (fun _ => True) (as.anyM f₁) (as.anyM f₂) := by
  induction as with
  | nil => exact hR.pure trivial
  | cons a as ih =>
    rw [List.forall_mem_cons] at hf
    rw [List.anyM_cons, List.anyM_cons]
    exact hR.bind hf.1 fun _ _ => ite (hR.pure trivial) (ih hf.2)

/-- So is whether all of them pass. -/
theorem allM {f₁ f₂ : α → Eval Bool} {as : List α}
    (hf : ∀ a ∈ as, R i (fun _ => True) (f₁ a) (f₂ a)) :
    R i (fun _ => True) (as.allM f₁) (as.allM f₂) := by
  induction as with
  | nil => exact hR.pure trivial
  | cons a as ih =>
    rw [List.forall_mem_cons] at hf
    rw [List.allM_cons, List.allM_cons]
    exact hR.bind hf.1 fun _ _ => ite (ih hf.2) (hR.pure trivial)

/-- The focus lies on each of some items in turn. -/
theorem onItem {m₁ m₂ : Eval α} (hm : R i P m₁ m₂) {items : List Item} (h : AllHave W items)
    {item : Item} {position start size : Nat} (hmem : (item, position) ∈ items.zipIdx start) :
    R i P (Eval.withFocus (some ⟨item, position, size⟩) m₁)
      (Eval.withFocus (some ⟨item, position, size⟩) m₂) := by
  refine hR.withFocus (fun f hf => ?_) hm
  obtain rfl := Option.some.inj hf
  exact h item (List.fst_mem_of_mem_zipIdx hmem)

private theorem forEachItem {m₁ m₂ : Eval α} (hm : R i P m₁ m₂) {value : Item} (h : W value) :
    R i (fun rs => ∀ r ∈ rs, P r) (forEachItem value m₁) (forEachItem value m₂) :=
  hR.mapM fun (_, _) hmem => hR.onItem hm (hR.closed.items h) hmem

/-- Related predicates keep items that have the property. -/
theorem filterItems {m₁ m₂ : Eval Item} (hm : R i W m₁ m₂) {items : List Item}
    (h : AllHave W items) : R i (AllHave W) (filterItems items m₁) (filterItems items m₂) := by
  unfold Eval.filterItems
  refine hR.filterMapM fun (item, position) hmem => ?_
  refine hR.bind (hR.onItem hm h hmem) fun value _ => ?_
  refine hR.bind (hR.readingAny fun _ => rfl) fun kept _ => hR.pure fun b hb => ?_
  split at hb
  · obtain rfl := Option.some.inj hb
    exact h item (List.fst_mem_of_mem_zipIdx hmem)
  · contradiction

private theorem gives_joinSteps {found : List Item} (forest : Forest) (h : AllHave W found) :
    Gives W (Item.joinSteps forest found) := by
  unfold Item.joinSteps
  dsimp only
  split
  · exact .ok (hR.closed.ofList h)
  · split
    · exact .error _
    · exact .ok (hR.closed.ofNodes _)

/-- A path goes on from each item in related ways. -/
theorem followPath {m₁ m₂ : Eval Item} (hm : R i W m₁ m₂) {base : Item} (h : W base) :
    R i W (followPath base m₁) (followPath base m₂) := by
  refine hR.bind (hR.readingAny fun _ => rfl) fun _ _ => hR.bind (hR.forEachItem hm h)
    fun found hfound => hR.reading (fun _ => rfl) fun c _ => hR.gives_joinSteps _ ?_
  intro v hv
  obtain ⟨r, hr, hv⟩ := List.mem_flatMap.mp hv
  exact hR.closed.items (hfound r hr) v hv

/-- The truth values of related evaluations are related. -/
theorem truth {m₁ m₂ : Eval Item} (hm : R i W m₁ m₂) :
    R i (fun _ => True) (truth m₁) (truth m₂) :=
  hR.bind hm fun _ _ => hR.readingAny fun _ => rfl

private theorem strictBinary (op : BinaryOp) {left right : Item} (h : W right) :
    R i W (strictBinary op left right) (strictBinary op left right) := by
  have hW := hR.closed
  cases op with
  | range => exact hR.range left right
  | arithmetic op => exact hR.reading (fun _ => rfl) fun _ _ => hW.gives_arithmetic op _ _
  | comparison op => exact hR.reading (fun _ => rfl) fun _ _ => hW.gives_compare op _ _
  | concat => exact hR.reading (fun _ => rfl) fun _ _ => hW.gives_concat _ _
  | nodes op => exact hR.reading (fun _ => rfl) fun _ _ => hW.gives_combineNodes op _ _
  | and => exact hR.result (.ok h)
  | or => exact hR.result (.ok h)
  | simpleMap => exact hR.result (.ok h)

/-- An operator applied to related operands gives related evaluations. -/
theorem binary {left₁ left₂ right₁ right₂ : Eval Item} (op : BinaryOp) (hl : R i W left₁ left₂)
    (hr : R i W right₁ right₂) : R i W (binary op left₁ right₁) (binary op left₂ right₂) := by
  have hboolean (b : Bool) : R i W (Pure.pure (.boolean b)) (Pure.pure (.boolean b)) :=
    hR.pure (hR.closed.boolean b)
  have hstrict (op : BinaryOp) :
      R i W (do let l ← left₁; let r ← right₁; Eval.strictBinary op l r)
        (do let l ← left₂; let r ← right₂; Eval.strictBinary op l r) :=
    hR.bind hl fun _ _ => hR.bind hr fun _ h => hR.strictBinary op h
  cases op with
  | and =>
    exact hR.bind (hR.truth hl) fun _ _ =>
      ite (hR.bind (hR.truth hr) fun _ _ => hboolean _) (hboolean _)
  | or =>
    exact hR.bind (hR.truth hl) fun _ _ =>
      ite (hboolean _) (hR.bind (hR.truth hr) fun _ _ => hboolean _)
  | simpleMap =>
    exact hR.bind hl fun l h => hR.bind (hR.forEachItem hr h) fun found hfound =>
      hR.pure (hR.closed.ofList hfound)
  | arithmetic op => exact hstrict _
  | comparison op => exact hstrict _
  | concat => exact hstrict _
  | range => exact hstrict _
  | nodes op => exact hstrict _

end

end Congruence

end Eval

end TreeQuery
