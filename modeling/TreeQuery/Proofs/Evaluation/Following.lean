import TreeQuery.Proofs.Evaluation.Keeping
import TreeQuery.Proofs.Library.Related

/-!
# Evaluations under two settings of limits

An evaluation asks for the limits in two places: a call wants to go deeper, or a range wants to be
as long as it is. `Follows` compares two evaluations under two settings of which the second allows
no less. The second one ends like the first and leaves the same context, unless the first fails with
an error that is excused, as that of a limit may be. Nothing that an evaluation does catches errors,
so this goes up from what is called to all that calls it.

The two evaluations may differ in what they do one level deeper, and the second one may run the
functions of the registry in its own way, as long as these parts follow each other there. So the
relation also compares different numbers of levels, and watched runs with those that are not.
-/

namespace TreeQuery

/-- A context with other limits. -/
def Context.under (c : Context) (limits : Limits) : Context := { c with limits }

/-- Two settings of limits, the second no tighter than the first. -/
structure Widening where
  /-- The first setting. -/
  tight : Limits
  /-- The second setting. -/
  wide : Limits
  /-- The errors under the first setting that say nothing about the second one. -/
  excused : EvalError → Prop
  depth_le : tight.depth ≤ wide.depth
  range_le : tight.range ≤ wide.range
  /-- Under the second setting a call can go deeper than under the first one. -/
  excused_depth : tight.depth < wide.depth → excused (.recursionLimit tight.depth)
  /-- Under the second setting a range can be longer than under the first one. -/
  excused_range : tight.range < wide.range → ∀ length, excused (.rangeTooLarge length tight.range)

namespace Eval

variable {α β : Type} {w : Widening} {n : Nat}

/-- An evaluation under the second setting of limits ends like one under the first, unless that one
fails with an error that is excused. Both start with calls nested so deep. -/
def Follows (w : Widening) (n : Nat) (m₁ m₂ : Eval α) : Prop :=
  ∀ c : Context, c.depth = n →
    (∃ e, w.excused e ∧ (m₁.run.run (c.under w.tight)).1 = .error e) ∨
    ∃ (result : Except EvalError α) (d : Context), d.depth = n ∧
      m₁.run.run (c.under w.tight) = (result, d.under w.tight) ∧
      m₂.run.run (c.under w.wide) = (result, d.under w.wide)

private theorem follows_pure (a : α) : Follows w n (pure a) (pure a) :=
  fun c hc => Or.inr ⟨.ok a, c, hc, rfl, rfl⟩

private theorem follows_throw (e : EvalError) : Follows w n (throw e : Eval α) (throw e) :=
  fun c hc => Or.inr ⟨.error e, c, hc, rfl, rfl⟩

/-- What is read from the context but the limits is the same. -/
theorem follows_reading {f : Context → Except EvalError α}
    (hf : ∀ c : Context, f (c.under w.tight) = f (c.under w.wide)) :
    Follows w n (reading f) (reading f) :=
  fun c hc => Or.inr ⟨f (c.under w.tight), c, hc, rfl, by rw [hf]; rfl⟩

private theorem follows_bindVariable (name : QName) (value : Item) :
    Follows w n (bindVariable name value) (bindVariable name value) :=
  fun c hc => Or.inr ⟨.ok (), c.bind name value, hc, rfl, rfl⟩

/-- All results of an evaluation under the first setting of limits have a property. -/
def GivesUnder (w : Widening) (n : Nat) (P : α → Prop) (m : Eval α) : Prop :=
  ∀ c : Context, c.depth = n → Gives P (m.run.run (c.under w.tight)).1

private theorem Follows.bind {P : α → Prop} {m₁ m₂ : Eval α} {f₁ f₂ : α → Eval β}
    (hm : Follows w n m₁ m₂) (hP : GivesUnder w n P m₁) (hf : ∀ a, P a → Follows w n (f₁ a) (f₂ a)) :
    Follows w n (m₁ >>= f₁) (m₂ >>= f₂) := by
  intro c hc
  have hresult := hP c hc
  rcases hm c hc with ⟨e, he, h⟩ | ⟨result, d, hd, h₁, h₂⟩
  · refine Or.inl ⟨e, he, ?_⟩
    rw [run_bind]
    split
    · next a d hrun =>
      rw [hrun] at h
      contradiction
    · next hrun =>
      rw [hrun] at h
      exact congrArg Except.error (Except.error.inj h)
  · rw [h₁] at hresult
    simp only [run_bind, h₁, h₂]
    cases result with
    | ok a => exact hf a (hresult a rfl) d hd
    | error e => exact Or.inr ⟨.error e, d, hd, rfl, rfl⟩

private theorem GivesUnder.bind {P : α → Prop} {Q : β → Prop} {m₁ m₂ : Eval α} {f : α → Eval β}
    (hP : GivesUnder w n P m₁) (hm : Follows w n m₁ m₂) (hf : ∀ a, P a → GivesUnder w n Q (f a)) :
    GivesUnder w n Q (m₁ >>= f) := by
  intro c hc
  have hresult := hP c hc
  rw [run_bind]
  rcases hm c hc with ⟨e, -, h⟩ | ⟨result, d, hd, h, -⟩
  · split
    · next hrun =>
      rw [hrun] at h
      contradiction
    · exact .error _
  · rw [h] at hresult ⊢
    cases result with
    | ok a => exact hf a (hresult a rfl) d hd
    | error e => exact .error e

/-! ### Changes of the context -/

/-- Evaluates in a context that is made for it, and makes another one of what it leaves. -/
def around (before : Context → Context) (after : Context → Context → Context) (m : Eval α) :
    Eval α :=
  ExceptT.mk fun c =>
    let r := m.run.run (before c)
    (r.1, after c r.2)

/-- Changes of the context that do not touch the limits can be made around both evaluations. -/
theorem Follows.around {k : Nat} {m₁ m₂ : Eval α} (before : Context → Context)
    (after : Context → Context → Context) (hm : Follows w k m₁ m₂)
    (hbefore : ∀ c l, before (c.under l) = (before c).under l)
    (hafter : ∀ c d l, after (c.under l) (d.under l) = (after c d).under l)
    (hdown : ∀ c, c.depth = n → (before c).depth = k)
    (hup : ∀ c d, d.depth = k → (after c d).depth = n) :
    Follows w n (around before after m₁) (around before after m₂) := by
  intro c hc
  rcases hm (before c) (hdown c hc) with ⟨e, he, h⟩ | ⟨result, d, hd, h₁, h₂⟩
  · refine Or.inl ⟨e, he, ?_⟩
    rw [← hbefore] at h
    exact h
  · rw [← hbefore] at h₁ h₂
    refine Or.inr ⟨result, after c d, hup c d hd, ?_, ?_⟩
    · rw [← hafter]
      exact congrArg (fun r => (r.1, after (c.under w.tight) r.2)) h₁
    · rw [← hafter]
      exact congrArg (fun r => (r.1, after (c.under w.wide) r.2)) h₂

private theorem Follows.inScope {m₁ m₂ : Eval α} (hm : Follows w n m₁ m₂) :
    Follows w n (inScope m₁) (inScope m₂) :=
  hm.around
    (fun c => { c with scopes := c.scopes.push ⟨some c.current, []⟩, current := c.scopes.size })
    (fun c d => { d with scopes := d.scopes.shrink c.scopes.size, current := c.current })
    (fun _ _ => rfl) (fun _ _ _ => rfl) (fun _ hc => hc) (fun _ _ hd => hd)

private theorem Follows.withFocus {m₁ m₂ : Eval α} (hm : Follows w n m₁ m₂) (focus : Option Focus) :
    Follows w n (withFocus focus m₁) (withFocus focus m₂) :=
  hm.around
    (fun c => { c with focus }) (fun c d => { d with focus := c.focus })
    (fun _ _ => rfl) (fun _ _ _ => rfl) (fun _ hc => hc) (fun _ _ hd => hd)

/-- One call deeper. Where the first setting does not allow it, either the second one does not
either and the errors are the same, or the error is excused. -/
theorem Follows.descend {m₁ m₂ : Eval α} (hm : n < w.tight.depth → Follows w (n + 1) m₁ m₂) :
    Follows w n (descend m₁) (descend m₂) := by
  intro c hc
  by_cases hn : n < w.tight.depth
  · have htight : ¬(c.under w.tight).limits.depth ≤ (c.under w.tight).depth :=
      Nat.not_le.mpr (hc ▸ hn)
    have hwide : ¬(c.under w.wide).limits.depth ≤ (c.under w.wide).depth :=
      Nat.not_le.mpr (hc ▸ Nat.lt_of_lt_of_le hn w.depth_le)
    rw [run_descend, if_neg htight, run_descend, if_neg hwide]
    exact (hm hn).around
      (fun c => { c with depth := c.depth + 1 }) (fun _ d => { d with depth := d.depth - 1 })
      (fun _ _ => rfl) (fun _ _ _ => rfl) (fun _ hc => congrArg Nat.succ hc)
      (fun _ _ hd => congrArg Nat.pred hd) c hc
  · have htight : (c.under w.tight).limits.depth ≤ (c.under w.tight).depth :=
      hc ▸ Nat.not_lt.mp hn
    rw [run_descend, if_pos htight, run_descend]
    rcases Nat.lt_or_eq_of_le w.depth_le with hlt | heq
    · exact Or.inl ⟨_, w.excused_depth hlt, rfl⟩
    · have hwide : (c.under w.wide).limits.depth ≤ (c.under w.wide).depth := by
        change w.wide.depth ≤ c.depth
        rw [← heq]
        exact htight
      rw [if_pos hwide]
      refine Or.inr ⟨.error (.recursionLimit w.tight.depth), c, hc, rfl, ?_⟩
      rw [heq]
      rfl

end Eval

/-! ### Operators -/

/-- What holds between the results for two atomic values holds between those for two operands. -/
theorem Item.onAtomicOperands_rel {R : Except EvalError Item → Except EvalError Item → Prop}
    (hrefl : ∀ r, R r r) {f g : Atomic → Atomic → Except EvalError Item}
    (h : ∀ a b, R (f a b) (g a b)) (forest : Forest) (left right : Item) :
    R (onAtomicOperands forest left right f) (onAtomicOperands forest left right g) := by
  unfold onAtomicOperands onOperands
  split
  · exact hrefl _
  · exact hrefl _
  · rcases left.atomizeOptional forest with _ | _ | a
    · exact hrefl _
    · rcases right.atomizeOptional forest with _ | _ | b <;> exact hrefl _
    · rcases right.atomizeOptional forest with _ | _ | b
      · exact hrefl _
      · exact hrefl _
      · exact h a b

/-- A range is the same under both settings of limits, unless it is too long for the first one. -/
theorem Item.range_follows (w : Widening) (forest : Forest) (left right : Item) :
    (∃ e, w.excused e ∧ left.range forest w.tight.range right = .error e) ∨
      left.range forest w.tight.range right = left.range forest w.wide.range right := by
  let R (r s : Except EvalError Item) : Prop := (∃ e, w.excused e ∧ r = .error e) ∨ r = s
  refine onAtomicOperands_rel (R := R) (fun _ => Or.inr rfl) (fun a b => ?_) forest left right
  rcases a.rangeBound b with _ | first
  · exact Or.inr rfl
  · rcases b.rangeBound a with _ | last
    · exact Or.inr rfl
    · let length := (last.toInt - first.toInt + 1).toNat
      let within (limit : Nat) : Except EvalError Item :=
        if limit < length then .error (.rangeTooLarge (min length largestLength) limit)
        else .ok (ofItems (integersFrom first length))
      change R (within w.tight.range) (within w.wide.range)
      by_cases h : w.tight.range < length
      · rcases Nat.lt_or_eq_of_le w.range_le with hlt | heq
        · exact Or.inl ⟨_, w.excused_range hlt _, if_pos h⟩
        · exact Or.inr (congrArg within heq)
      · have hwide := w.range_le
        exact Or.inr ((if_neg h).trans (if_neg (by omega)).symm)

namespace Eval

variable {w : Widening} {n : Nat}

private theorem follows_range (left right : Item) :
    Follows w n (strictBinary .range left right) (strictBinary .range left right) := by
  intro c hc
  rcases Item.range_follows w c.forest left right with ⟨e, he, h⟩ | h
  · exact Or.inl ⟨e, he, h⟩
  · exact Or.inr ⟨left.range c.forest w.tight.range right, c, hc, rfl, by rw [h]; rfl⟩

/-- The second evaluation follows the first one, whose results have a property. -/
abbrev FollowedBy (w : Widening) : EvalRelation Nat :=
  fun n _ P m₁ m₂ => Follows w n m₁ m₂ ∧ GivesUnder w n P m₁

/-- To follow goes up from what evaluations are made of. Of what is one call deeper something is asked
only where the limits allow a call. -/
theorem congruence_follows (w : Widening) :
    Congruence (fun _ => True) (fun n k => k = n + 1 ∧ n < w.tight.depth) (FollowedBy w)
      (FollowedBy w) where
  closed := Item.closed_true
  pure h := ⟨follows_pure _, fun _ _ => .ok h⟩
  throw e := ⟨follows_throw e, fun _ _ => .error e⟩
  bind hm hf := ⟨hm.1.bind hm.2 fun a h => (hf a h).1, hm.2.bind hm.1 fun a h => (hf a h).2⟩
  reading hf h :=
    ⟨follows_reading fun c => (hf (c.under w.tight)).symm.trans (hf (c.under w.wide)),
      fun _ _ => h _ fun _ _ => trivial⟩
  variableValue _ := ⟨follows_reading fun _ => rfl, fun _ _ _ _ => trivial⟩
  range left right := ⟨follows_range left right, fun _ _ _ _ => trivial⟩
  descend hm := by
    refine ⟨.descend fun hn => (hm _ ⟨rfl, hn⟩).1, fun c hc => ?_⟩
    rw [run_descend]
    split
    · exact .error _
    · next hdeep =>
      have hn := Nat.not_le.mp hdeep
      exact (hm _ ⟨rfl, hc ▸ hn⟩).2 { c with depth := c.depth + 1 } (congrArg Nat.succ hc)
  withFocus _ hm := ⟨hm.1.withFocus _, fun c hc => hm.2 { c with focus := _ } hc⟩
  inScope hm := ⟨hm.1.inScope, fun c hc => hm.2
    { c with scopes := c.scopes.push ⟨some c.current, []⟩, current := c.scopes.size } hc⟩
  body hm := hm
  bindVariable name _ := ⟨follows_bindVariable name _, fun _ _ _ _ => trivial⟩
  bindBody hm hf := ⟨hm.1.bind hm.2 fun a h => (hf a h).1, hm.2.bind hm.1 fun a h => (hf a h).2⟩

end Eval

/-! ### Functions that can be called by name -/

/-- A function that does not look at the limits: under two settings it ends in the same way, if the
functions that it calls do. -/
def LibraryFunction.IgnoresLimits (f : LibraryFunction) : Prop :=
  ∀ (w : Widening) (n : Nat) (call₁ call₂ : Caller),
    (∀ g args, Eval.Follows w n (call₁ g args) (call₂ g args)) →
      ∀ args, Eval.Follows w n (f.run call₁ args) (f.run call₂ args)

/-- A registry of functions that do not look at the limits. -/
def Registry.IgnoresLimits (r : Registry) : Prop := ∀ f ∈ r.functions, f.IgnoresLimits

/-- A function that is run in a way of its own. -/
def LibraryFunction.wrapped (wrap : Eval Item → Eval Item) (f : LibraryFunction) :
    LibraryFunction :=
  { f with run := fun call args => wrap (f.run call args) }

/-- A registry whose functions are all run in a way of its own. -/
def Registry.wrapped (wrap : Eval Item → Eval Item) (r : Registry) : Registry :=
  ⟨r.functions.map (·.wrapped wrap)⟩

@[simp] theorem Registry.wrapped_id (r : Registry) : r.wrapped id = r :=
  congrArg Registry.mk (List.map_id _)

private theorem Registry.find?_wrapped (wrap : Eval Item → Eval Item) (r : Registry) (name : String) :
    (r.wrapped wrap).find? name = (r.find? name).map (·.wrapped wrap) :=
  List.find?_map

/-- A name stands for the same function, which runs in the way that is chosen. -/
theorem Registry.resolve?_wrapped (wrap : Eval Item → Eval Item) (r : Registry) (name : QName) :
    (r.wrapped wrap).resolve? name = (r.resolve? name).map (·.wrapped wrap) := by
  simp only [resolve?, find?_wrapped]
  split <;> rfl

/-- In what way functions run makes no difference to their signatures. -/
theorem Registry.sameSignatures_wrapped (wrap : Eval Item → Eval Item) (r : Registry) :
    r.SameSignatures (r.wrapped wrap) := by
  intro name
  rw [resolve?_wrapped, Option.map_map]
  rfl

/-- No function of the library looks at the limits. -/
theorem Registry.ignoresLimits_library : library.IgnoresLimits := by
  intro f hf w n call₁ call₂ hc args
  have hrelated := related_library (i := n) (Eval.congruence_follows w) f hf call₁ call₂
    (fun g args _ _ => ⟨hc g args, fun _ _ _ _ => trivial⟩) args fun _ _ => trivial
  exact hrelated.1

end TreeQuery
