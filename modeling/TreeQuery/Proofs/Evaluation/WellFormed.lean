import TreeQuery.Proofs.Evaluation.Keeping
import TreeQuery.Proofs.Item.WellFormed
import TreeQuery.Proofs.Library.Related

/-!
# Evaluations of well-formed values

In a context whose variables and focus are well formed, every expression has a well-formed value if
it has one. `Yields` says this of an evaluation and of what it binds.
-/

namespace TreeQuery

/-- A context in which only well-formed values are found. -/
structure Context.WellFormed (c : Context) : Prop where
  /-- All variables are bound to such values, in the scopes around as well. -/
  bindings : ∀ (i : Nat) s, c.scopes[i]? = some s → ∀ v ∈ s.bindings, v.2.WellFormed
  /-- The context item is one. -/
  focus : ∀ f, c.focus = some f → f.item.WellFormed

private theorem Context.WellFormed.bind {c : Context} (hc : c.WellFormed) (name : QName) {value : Item}
    (hv : value.WellFormed) : (c.bind name value).WellFormed := by
  refine ⟨fun i s hs v hmem => ?_, hc.focus⟩
  simp only [Context.bind, Array.getElem?_modify] at hs
  split at hs
  · obtain ⟨t, ht, rfl⟩ := Option.map_eq_some_iff.mp hs
    rcases List.mem_cons.mp hmem with rfl | hmem
    · exact hv
    · exact hc.bindings i t ht v (List.mem_of_mem_filter hmem)
  · exact hc.bindings i s hs v hmem

private theorem Context.WellFormed.enter {c : Context} (hc : c.WellFormed) : c.enter.WellFormed := by
  refine ⟨fun i s hs v hv => ?_, hc.focus⟩
  rw [Context.enter, Array.getElem?_push] at hs
  split at hs
  · obtain rfl := Option.some.inj hs
    exact absurd hv List.not_mem_nil
  · exact hc.bindings i s hs v hv

private theorem Context.WellFormed.leave {d : Context} (hd : d.WellFormed) (c : Context) :
    (c.leave d).WellFormed := by
  refine ⟨fun i s hs v hv => ?_, hd.focus⟩
  simp only [Context.leave] at hs
  obtain ⟨hi, rfl⟩ := Array.getElem?_eq_some_iff.mp hs
  rw [Array.getElem_shrink] at hv
  exact hd.bindings i _ (Array.getElem?_eq_getElem _) v hv

private theorem Context.WellFormed.lookupWithin {c : Context} (hc : c.WellFormed) {name : QName}
    {value : Item} (steps i : Nat) (h : lookupWithin c.scopes name steps i = some value) :
    value.WellFormed := by
  induction steps generalizing i with
  | zero => contradiction
  | succ steps ih =>
    simp only [Context.lookupWithin] at h
    split at h
    · contradiction
    · next s hs =>
      split at h
      · next v hv =>
        obtain rfl := Option.some.inj h
        obtain ⟨before, after, hsplit, -⟩ := List.lookup_eq_some_iff.mp hv
        exact hc.bindings i s hs (name, v) (by simp [hsplit])
      · split at h
        · contradiction
        · exact ih _ h

namespace Eval

variable {α β : Type} {P : α → Prop} {Q : β → Prop}

/-- An evaluation that has results with a property only, and binds well-formed values only. -/
def Yields (P : α → Prop) (m : Eval α) : Prop :=
  ∀ c, c.WellFormed → (m.run.run c).2.WellFormed ∧ Gives P (m.run.run c).1

private theorem yields_pure {a : α} (h : P a) : Yields P (pure a) := fun _ hc => ⟨hc, .ok h⟩

private theorem yields_throw (e : EvalError) : Yields P (throw e : Eval α) := fun _ hc => ⟨hc, .error e⟩

private theorem yields_reading {f : Context → Except EvalError α}
    (h : ∀ c, c.WellFormed → Gives P (f c)) :
    Yields P (reading f) := fun c hc => ⟨hc, h c hc⟩

private theorem yields_get : Yields (fun _ => True) (get : Eval Context) :=
  fun _ hc => ⟨hc, fun _ _ => trivial⟩

private theorem yields_bindVariable (name : QName) {value : Item} (h : value.WellFormed) :
    Yields (fun _ => True) (bindVariable name value) :=
  fun _ hc => ⟨hc.bind name h, fun _ _ => trivial⟩

private theorem Yields.bind {m : Eval α} {f : α → Eval β} (hm : Yields P m)
    (hf : ∀ a, P a → Yields Q (f a)) : Yields Q (m >>= f) := by
  intro c hc
  obtain ⟨hd, hgives⟩ := hm c hc
  rw [run_bind]
  split
  · next a d h =>
    rw [h] at hd hgives
    exact hf a (hgives a rfl) d hd
  · next e d h =>
    rw [h] at hd
    exact ⟨hd, .error e⟩

private theorem Yields.inScope {m : Eval α} (hm : Yields P m) : Yields P (inScope m) := by
  intro c hc
  obtain ⟨hd, hgives⟩ := hm c.enter hc.enter
  exact ⟨hd.leave c, hgives⟩

private theorem Yields.withFocus {m : Eval α} (hm : Yields P m) {focus : Option Focus}
    (hfocus : ∀ f, focus = some f → f.item.WellFormed) : Yields P (withFocus focus m) := by
  intro c hc
  obtain ⟨hd, hgives⟩ := hm { c with focus } ⟨hc.bindings, hfocus⟩
  exact ⟨⟨hd.bindings, hc.focus⟩, hgives⟩

private theorem Yields.descend {m : Eval α} (hm : Yields P m) : Yields P (descend m) := by
  intro c hc
  rw [run_descend]
  split
  · exact ⟨hc, .error _⟩
  · obtain ⟨hd, hgives⟩ := hm { c with depth := c.depth + 1 } ⟨hc.bindings, hc.focus⟩
    exact ⟨⟨hd.bindings, hd.focus⟩, hgives⟩

private theorem yields_variableValue (name : QName) : Yields Item.WellFormed (variableValue name) := by
  refine yields_reading fun c hc => ?_
  cases hvalue : c.lookup? name with
  | none => exact .error _
  | some value => exact .ok (hc.lookupWithin _ _ hvalue)

/-- The first evaluation yields well-formed values. -/
abbrev FirstYields : EvalRelation Unit := fun _ _ P m _ => Yields P m

/-- To yield well-formed values goes up from what evaluations are made of. -/
theorem congruence_yields :
    Congruence Item.WellFormed (fun _ _ => True) FirstYields FirstYields where
  closed := Item.closed_wellFormed
  pure := yields_pure
  throw := yields_throw
  bind hm hf := hm.bind hf
  reading _ h := yields_reading fun c hc => h c hc.focus
  variableValue := yields_variableValue
  range _ _ := yields_reading fun _ _ => Item.closed_wellFormed.gives_range _ _ _
  descend hm := (hm () trivial).descend
  withFocus hfocus hm := hm.withFocus hfocus
  inScope hm := hm.inScope
  body hm := hm
  bindVariable name h := yields_bindVariable name h
  bindBody hm hf := hm.bind hf

end Eval

/-! ### Values of evaluations -/

/-- In a context of well-formed values, an evaluation fails or has a value that is well formed at
every depth: no error is hidden inside a value. -/
theorem Eval.wellFormed_value (e : Expr) (c : Context) (hc : c.WellFormed) :
    (∃ error, ((evaluate Registry.library e).run.run c).1 = .error error) ∨
      ∃ value, ((evaluate Registry.library e).run.run c).1 = .ok value ∧ value.WellFormed := by
  have hreached : Yields Item.WellFormed limitReached := yields_reading fun _ _ => .error _
  have hyields : Yields Item.WellFormed (evaluate Registry.library e) := yields_get.bind fun c _ =>
    (congruence_yields.levels (fun _ => Registry.related_library congruence_yields)
      (fun _ => hreached) (levelsLeft c) ()).eval e
  obtain ⟨-, hvalue⟩ := hyields c hc
  cases hresult : ((evaluate Registry.library e).run.run c).1 with
  | error error => exact Or.inl ⟨error, rfl⟩
  | ok value => exact Or.inr ⟨value, rfl, hvalue value hresult⟩

private theorem Context.wellFormed_initial : Context.WellFormed {} := by
  refine ⟨fun i s hs v hv => ?_, nofun⟩
  obtain ⟨hi, rfl⟩ := Array.getElem?_eq_some_iff.mp hs
  obtain rfl : i = 0 := Nat.lt_one_iff.mp hi
  exact absurd hv List.not_mem_nil

/-- A variable that holds the sequence of two integers. -/
def Context.withPair : Context :=
  ({} : Context).bind (.simple "x") (.sequence [.integer 1, .integer 2])

/-- Two sequences in a sequence are spliced into it. -/
theorem Eval.wellFormed_value_withPair :
    Context.withPair.WellFormed ∧
    ((evaluate Registry.library (.sequence [.var (.simple "x"), .var (.simple "x")])).run.run
      Context.withPair).1 = .ok (.sequence [.integer 1, .integer 2, .integer 1, .integer 2]) ∧
    (Item.sequence [.integer 1, .integer 2, .integer 1, .integer 2]).WellFormed := by
  have hpair : (Item.sequence [.integer 1, .integer 2]).WellFormed :=
    .sequence (by decide) (by simp [Item.isSequence]) (by simp [Item.WellFormed.integer])
  have hc : Context.withPair.WellFormed := Context.wellFormed_initial.bind _ hpair
  have hvalue : ((evaluate Registry.library (.sequence [.var (.simple "x"),
      .var (.simple "x")])).run.run Context.withPair).1 =
        .ok (.sequence [.integer 1, .integer 2, .integer 1, .integer 2]) := rfl
  refine ⟨hc, hvalue, ?_⟩
  obtain ⟨error, herror⟩ | ⟨value, hok, hwf⟩ :=
    wellFormed_value (.sequence [.var (.simple "x"), .var (.simple "x")]) Context.withPair hc
  · rw [hvalue] at herror
    contradiction
  · rw [hvalue] at hok
    obtain rfl := Except.ok.inj hok
    exact hwf

end TreeQuery
