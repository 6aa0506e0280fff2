import TreeQuery.Proofs.Evaluation.Keeping

/-!
# What an evaluation sees of scopes

A variable is looked up in the current scope and in those around it. So binding a variable and going
into a scope change what is found in ways that do not depend on how the scopes are laid out, and two
contexts in which the same is found stay so. An evaluation has the same result in both: variables are
only looked up, the body of a function too sees the variables of its caller in this way alone.

What is found has a property that is closed, and so have the results. The contexts are left as they
were; the bodies of scopes leave contexts in which the same is found again.
-/

namespace TreeQuery

private theorem Scope.lookup_bind (s : Scope) (name : QName) (value : Item) (other : QName) :
    (s.bind name value).bindings.lookup other =
      if other = name then some value else s.bindings.lookup other := by
  have hfilter (bindings : List (QName × Item)) (h : other ≠ name) :
      (bindings.filter fun v => v.1 != name).lookup other = bindings.lookup other := by
    induction bindings with
    | nil => rfl
    | cons v bindings ih =>
      obtain ⟨key, bound⟩ := v
      by_cases hkey : key = name
      · subst hkey
        rw [List.filter_cons_of_neg (by simp), ih, List.lookup_cons, beq_false_of_ne h]
      · rw [List.filter_cons_of_pos (by simpa using hkey), List.lookup_cons, List.lookup_cons, ih]
  rw [Scope.bind, List.lookup_cons]
  by_cases h : other = name
  · rw [h, beq_self_eq_true, if_pos rfl]
  · rw [beq_false_of_ne h, if_neg h, hfilter s.bindings h]

namespace Context

/-! ### Looking up variables -/

/-- The current scope is there, and around each scope there is none or one that was made before it. -/
structure Linked (c : Context) : Prop where
  current : c.current < c.scopes.size
  parent : ∀ (i : Nat) (s : Scope), c.scopes[i]? = some s → ∀ p, s.parent = some p → p < i

variable {c d : Context} {W : Item → Prop}

/-- There is one scope at the start, and nothing encloses it. -/
theorem linked_initial : Linked {} where
  current := Nat.zero_lt_one
  parent i s hs p hp := by
    obtain ⟨hi, rfl⟩ := Array.getElem?_eq_some_iff.mp hs
    obtain rfl : i = 0 := Nat.lt_one_iff.mp hi
    contradiction

private theorem Linked.bind (hc : c.Linked) (name : QName) (value : Item) :
    (c.bind name value).Linked where
  current := by
    rw [Context.bind, Array.size_modify]
    exact hc.current
  parent i s hs p hp := by
    rw [Context.bind, Array.getElem?_modify] at hs
    split at hs
    · obtain ⟨t, ht, rfl⟩ := Option.map_eq_some_iff.mp hs
      exact hc.parent i t ht p hp
    · exact hc.parent i s hs p hp

private theorem Linked.enter (hc : c.Linked) : c.enter.Linked where
  current := by
    rw [Context.enter, Array.size_push]
    exact Nat.lt_succ_self _
  parent i s hs p hp := by
    rw [Context.enter, Array.getElem?_push] at hs
    split at hs
    · next hi =>
      obtain rfl := Option.some.inj hs
      obtain rfl := Option.some.inj hp
      rw [hi]
      exact hc.current
    · exact hc.parent i s hs p hp

/-- What is bound in a scope is found there, and otherwise the scope around it is looked into. -/
theorem lookupWithin_succ {scopes : Array Scope} {i : Nat} {s : Scope} (h : scopes[i]? = some s)
    (name : QName) (steps : Nat) :
    lookupWithin scopes name (steps + 1) i =
      (s.bindings.lookup name).or (s.parent.bind (lookupWithin scopes name steps)) := by
  simp only [lookupWithin, h]
  cases s.bindings.lookup name with
  | some value => rfl
  | none => cases s.parent <;> rfl

/-- Only the scopes up to the first one that is looked into matter, and how many steps are allowed
does not if they are enough to get to the first scope. By induction on the steps. -/
theorem Linked.lookupWithin_congr (hc : c.Linked) {scopes : Array Scope} (name : QName)
    {i steps steps' : Nat} (hscopes : ∀ j ≤ i, scopes[j]? = c.scopes[j]?) (hi : i < c.scopes.size)
    (hsteps : i < steps) (hsteps' : i < steps') :
    lookupWithin scopes name steps i = lookupWithin c.scopes name steps' i := by
  induction steps generalizing i steps' with
  | zero => contradiction
  | succ steps ih =>
    obtain ⟨steps', rfl⟩ : ∃ k, steps' = k + 1 := ⟨steps' - 1, by omega⟩
    have hs := Array.getElem?_eq_getElem hi
    rw [lookupWithin_succ ((hscopes i (Nat.le_refl i)).trans hs), lookupWithin_succ hs]
    congr 1
    cases hp : (c.scopes[i]).parent with
    | none => rfl
    | some p =>
      have hlt := hc.parent i _ hs p hp
      exact ih (fun j hj => hscopes j (by omega)) (by omega) (by omega) (by omega)

/-- A new scope binds nothing, so what is found is what was found around it. -/
theorem Linked.lookup?_enter (hc : c.Linked) (name : QName) : c.enter.lookup? name = c.lookup? name := by
  have hcurrent := hc.current
  have hnew : (c.scopes.push ⟨some c.current, []⟩)[c.scopes.size]? = some ⟨some c.current, []⟩ :=
    Array.getElem?_push_size
  rw [lookup?, Context.enter, Array.size_push, lookupWithin_succ hnew, List.lookup_nil,
    Option.none_or, Option.bind_some]
  apply hc.lookupWithin_congr name _ hcurrent hcurrent hcurrent
  intro j hj
  rw [Array.getElem?_push_lt (by omega), Array.getElem?_eq_getElem]

/-- A variable that is bound is found, and all others are found as before. -/
theorem Linked.lookup?_bind (hc : c.Linked) (name : QName) (value : Item) (other : QName) :
    (c.bind name value).lookup? other = if other = name then some value else c.lookup? other := by
  have hcurrent := hc.current
  have hs := Array.getElem?_eq_getElem hcurrent
  obtain ⟨steps, hsteps⟩ : ∃ k, c.scopes.size = k + 1 := ⟨c.scopes.size - 1, by omega⟩
  have hbound : (c.bind name value).scopes[c.current]? =
      some ((c.scopes[c.current]).bind name value) := by
    rw [Context.bind, Array.getElem?_modify, if_pos rfl, hs]
    rfl
  have hsize : (c.bind name value).scopes.size = steps + 1 := by
    rw [Context.bind, Array.size_modify, hsteps]
  have haround : ((c.scopes[c.current]).parent.bind
      (lookupWithin (c.bind name value).scopes other steps)) =
        (c.scopes[c.current]).parent.bind (lookupWithin c.scopes other steps) := by
    cases hp : (c.scopes[c.current]).parent with
    | none => rfl
    | some p =>
      have hlt := hc.parent _ _ hs p hp
      apply hc.lookupWithin_congr other _ (by omega) (by omega) (by omega)
      intro j hj
      rw [Context.bind, Array.getElem?_modify, if_neg (by omega)]
  rw [lookup?, lookup?, hsize, hsteps, lookupWithin_succ hs]
  change lookupWithin _ other (steps + 1) c.current = _
  rw [lookupWithin_succ hbound, Scope.lookup_bind]
  split
  · rfl
  · rw [← haround]
    rfl

/-! ### Contexts in which the same is found -/

/-- What is found in a context has a property. -/
structure Shows (W : Item → Prop) (c : Context) : Prop where
  /-- The variables have it. -/
  found : ∀ name value, c.lookup? name = some value → W value
  /-- The context item has it. -/
  focus : c.FocusHas W

/-- In two contexts the same is found, and it has a property. How their scopes are laid out may be
different. -/
structure Alike (W : Item → Prop) (c d : Context) : Prop where
  left : c.Linked
  right : d.Linked
  bare : c.bare = d.bare
  limits : c.limits = d.limits
  depth : c.depth = d.depth
  lookup : ∀ name, c.lookup? name = d.lookup? name
  shows : c.Shows W

/-- An empty context shows nothing. -/
theorem shows_initial : Shows W {} where
  found name value h := by
    have hnone : ({} : Context).lookup? name = none := rfl
    rw [hnone] at h
    contradiction
  focus f hf := by cases hf

/-- A context is like itself, if the values found in it have the property. -/
theorem Alike.refl (hc : c.Linked) (hshows : c.Shows W) : Alike W c c :=
  ⟨hc, hc, rfl, rfl, rfl, fun _ => rfl, hshows⟩

private theorem Alike.forest (h : Alike W c d) : c.forest = d.forest := by
  have hbare := congrArg Context.forest h.bare
  exact hbare

/-- Contexts stay alike when the same variable is bound in both. -/
theorem Alike.bind (h : Alike W c d) (name : QName) {value : Item} (hvalue : W value) :
    Alike W (c.bind name value) (d.bind name value) where
  left := h.left.bind name value
  right := h.right.bind name value
  bare := h.bare
  limits := h.limits
  depth := h.depth
  lookup other := by rw [h.left.lookup?_bind, h.right.lookup?_bind, h.lookup]
  shows := by
    refine ⟨fun other found hfound => ?_, h.shows.focus⟩
    rw [h.left.lookup?_bind] at hfound
    split at hfound
    · exact Option.some.inj hfound ▸ hvalue
    · exact h.shows.found other found hfound

/-- A scope without variables hides nothing. -/
theorem Alike.enter_right (h : Alike W c d) : Alike W c d.enter where
  left := h.left
  right := h.right.enter
  bare := h.bare
  limits := h.limits
  depth := h.depth
  lookup name := by rw [h.right.lookup?_enter, h.lookup]
  shows := h.shows

private theorem Alike.symm (h : Alike W c d) : Alike W d c where
  left := h.right
  right := h.left
  bare := h.bare.symm
  limits := h.limits.symm
  depth := h.depth.symm
  lookup name := (h.lookup name).symm
  shows := by
    refine ⟨fun name value hvalue => h.shows.found name value ?_, fun f hf => h.shows.focus f ?_⟩
    · rw [h.lookup, hvalue]
    · exact (congrArg Context.focus h.bare).trans hf

/-- Contexts stay alike when both get a scope of their own. -/
theorem Alike.enter (h : Alike W c d) : Alike W c.enter d.enter := h.enter_right.symm.enter_right.symm

private theorem Alike.withFocus (h : Alike W c d) {focus : Option Focus}
    (hfocus : ∀ f, focus = some f → W f.item) :
    Alike W { c with focus } { d with focus } where
  left := ⟨h.left.current, h.left.parent⟩
  right := ⟨h.right.current, h.right.parent⟩
  bare := congrArg (fun b => { b with focus }) h.bare
  limits := h.limits
  depth := h.depth
  lookup := h.lookup
  shows := ⟨h.shows.found, hfocus⟩

private theorem Alike.deeper (h : Alike W c d) :
    Alike W { c with depth := c.depth + 1 } { d with depth := d.depth + 1 } where
  left := ⟨h.left.current, h.left.parent⟩
  right := ⟨h.right.current, h.right.parent⟩
  bare := h.bare
  limits := h.limits
  depth := congrArg Nat.succ h.depth
  lookup := h.lookup
  shows := ⟨h.shows.found, h.shows.focus⟩

end Context

namespace Eval

open Context

variable {α β : Type} {W : Item → Prop}

/-- Where the same is found, two evaluations have the same result, which has a property, and leave the
contexts as they were. -/
def SeesAlike (W : Item → Prop) : EvalRelation Unit := fun _ _ P m₁ m₂ =>
  ∀ c d, Alike W c d → (m₁.run.run c).2 = c ∧ (m₂.run.run d).2 = d ∧
    (m₁.run.run c).1 = (m₂.run.run d).1 ∧ Gives P (m₁.run.run c).1

/-- Where the same is found, two bodies of scopes have the same result, which has a property, and bind
the same in the current scopes. -/
def BindsAlike (W : Item → Prop) : EvalRelation Unit := fun _ _ P m₁ m₂ =>
  ∀ c d, Alike W c d → c.BindsTo (m₁.run.run c).2 ∧ d.BindsTo (m₂.run.run d).2 ∧
    Alike W (m₁.run.run c).2 (m₂.run.run d).2 ∧
    (m₁.run.run c).1 = (m₂.run.run d).1 ∧ Gives P (m₁.run.run c).1

private theorem SeesAlike.binds {i : Unit} {P : α → Prop} {m₁ m₂ : Eval α} (h : SeesAlike W i P m₁ m₂) :
    BindsAlike W i P m₁ m₂ := by
  intro c d hcd
  obtain ⟨hc, hd, heq, hgives⟩ := h c d hcd
  rw [hc, hd]
  exact ⟨.refl c, .refl d, hcd, heq, hgives⟩

private theorem SeesAlike.bind {i : Unit} {P : α → Prop} {Q : β → Prop} {m₁ m₂ : Eval α}
    {f₁ f₂ : α → Eval β} (hm : SeesAlike W i P m₁ m₂)
    (hf : ∀ a, P a → SeesAlike W i Q (f₁ a) (f₂ a)) : SeesAlike W i Q (m₁ >>= f₁) (m₂ >>= f₂) := by
  intro c d hcd
  obtain ⟨hc, hd, heq, hgives⟩ := hm c d hcd
  rcases h₁ : m₁.run.run c with ⟨r, c'⟩
  rcases h₂ : m₂.run.run d with ⟨r', d'⟩
  simp only [h₁, h₂] at hc hd heq hgives
  subst hc hd heq
  simp only [run_bind, h₁, h₂]
  cases r with
  | error e => exact ⟨rfl, rfl, rfl, .error e⟩
  | ok a => exact hf a (hgives a rfl) c' d' hcd

private theorem BindsAlike.bind {i : Unit} {P : α → Prop} {Q : β → Prop} {m₁ m₂ : Eval α}
    {f₁ f₂ : α → Eval β} (hm : BindsAlike W i P m₁ m₂)
    (hf : ∀ a, P a → BindsAlike W i Q (f₁ a) (f₂ a)) :
    BindsAlike W i Q (m₁ >>= f₁) (m₂ >>= f₂) := by
  intro c d hcd
  obtain ⟨hc, hd, hcd', heq, hgives⟩ := hm c d hcd
  rcases h₁ : m₁.run.run c with ⟨r, c'⟩
  rcases h₂ : m₂.run.run d with ⟨r', d'⟩
  simp only [h₁, h₂] at hc hd hcd' heq hgives
  subst heq
  simp only [run_bind, h₁, h₂]
  cases r with
  | error e => exact ⟨hc, hd, hcd', rfl, .error e⟩
  | ok a =>
    obtain ⟨hc', hd', hrest⟩ := hf a (hgives a rfl) c' d' hcd'
    exact ⟨hc.trans hc', hd.trans hd', hrest⟩

/-- Dropping the scopes that were made for two bodies leaves the contexts as they were. -/
theorem BindsAlike.inScope {i : Unit} {P : α → Prop} {m₁ m₂ : Eval α}
    (hm : BindsAlike W i P m₁ m₂) : SeesAlike W i P (inScope m₁) (inScope m₂) := by
  intro c d hcd
  obtain ⟨hc, hd, -, heq, hgives⟩ := hm c.enter d.enter hcd.enter
  exact ⟨hc.leave, hd.leave, heq, hgives⟩

private theorem SeesAlike.withFocus {i : Unit} {P : α → Prop} {m₁ m₂ : Eval α}
    (hm : SeesAlike W i P m₁ m₂) {focus : Option Focus} (hfocus : ∀ f, focus = some f → W f.item) :
    SeesAlike W i P (withFocus focus m₁) (withFocus focus m₂) := by
  intro c d hcd
  obtain ⟨hc, hd, heq, hgives⟩ := hm _ _ (hcd.withFocus hfocus)
  simp only [run_withFocus, hc, hd]
  exact ⟨trivial, trivial, heq, hgives⟩

private theorem SeesAlike.descend {i : Unit} {P : α → Prop} {m₁ m₂ : Eval α}
    (hm : SeesAlike W i P m₁ m₂) : SeesAlike W i P (descend m₁) (descend m₂) := by
  intro c d hcd
  obtain ⟨hc, hd, heq, hgives⟩ := hm _ _ hcd.deeper
  have hlimits := hcd.limits
  have hdepth := hcd.depth
  rw [run_descend, run_descend]
  by_cases hdeep : c.limits.depth ≤ c.depth
  · rw [if_pos hdeep, if_pos (hlimits ▸ hdepth ▸ hdeep), hlimits]
    exact ⟨rfl, rfl, rfl, .error _⟩
  · rw [if_neg hdeep, if_neg (hlimits ▸ hdepth ▸ hdeep)]
    simp only [hc, hd, Nat.add_sub_cancel]
    exact ⟨trivial, trivial, heq, hgives⟩

/-- What is read alike of contexts that are alike sees scopes only by looking up variables. -/
theorem seesAlike_reading {i : Unit} {P : α → Prop} {f : Context → Except EvalError α}
    (hf : ∀ c d, Alike W c d → f c = f d) (h : ∀ c, c.Shows W → Gives P (f c)) :
    SeesAlike W i P (reading f) (reading f) :=
  fun c d hcd => ⟨rfl, rfl, hf c d hcd, h c hcd.shows⟩

/-- To see scopes only by looking up variables goes up from what evaluations are made of. -/
theorem congruence_seesAlike (hW : Item.Closed W) :
    Congruence W (fun _ _ => True) (SeesAlike W) (BindsAlike W) where
  closed := hW
  pure h := fun _ _ _ => ⟨rfl, rfl, rfl, .ok h⟩
  throw e := fun _ _ _ => ⟨rfl, rfl, rfl, .error e⟩
  bind hm hf := hm.bind hf
  reading hf h := by
    refine seesAlike_reading (fun c d hcd => ?_) fun c hc => h c hc.focus
    rw [← hf c, hcd.bare, hf d]
  variableValue name := by
    refine seesAlike_reading (fun c d hcd => ?_) fun c hc => ?_
    · rw [hcd.lookup]
    · cases hvalue : c.lookup? name with
      | none => exact .error _
      | some value => exact .ok (hc.found name value hvalue)
  range left right := by
    refine seesAlike_reading (fun c d hcd => ?_) fun c _ => hW.gives_range _ _ _
    rw [hcd.forest, hcd.limits]
  descend hm := (hm () trivial).descend
  withFocus hfocus hm := hm.withFocus hfocus
  inScope hm := hm.inScope
  body hm := hm.binds
  bindVariable name h := fun c d hcd =>
    ⟨c.bindsTo_bind name _, d.bindsTo_bind name _, hcd.bind name h, rfl, fun _ _ => trivial⟩
  bindBody hm hf := hm.bind hf

end Eval

end TreeQuery
