import TreeQuery.Proofs.Evaluation.Values
import TreeQuery.Proofs.Item.Compact

/-!
# Sequences that are spliced before they are evaluated

Where sequences stand among the members of a sequence, it does not matter whether their members take
their place in the expression or their items take the place of their values. The members are evaluated in
the same order in both cases, so the first one that fails is the same, and so is the first error among the
values. The value of a single member is the value of a sequence of it, because values are compact.
-/

namespace TreeQuery

/-- A way to evaluate expressions to compact values that puts the value of a sequence together from those
of its members. -/
structure Valuation (value : Expr → Except EvalError Item) : Prop where
  sequence (es : List Expr) : value (.sequence es) = (es.mapM value).map .ofList
  compact (e : Expr) : Gives Item.Compact (value e)

namespace Valuation

variable {value : Expr → Except EvalError Item}

/-- The members of expressions are evaluated in the same order, one list of them after the other. -/
theorem mapM_flatMap_members (value : Expr → Except EvalError Item) (es : List Expr) :
    (es.flatMap Expr.members).mapM value = (es.mapM fun e : Expr => e.members.mapM value).map List.flatten := by
  induction es with
  | nil => rfl
  | cons e es ih =>
    rw [List.flatMap_cons, List.mapM_append, List.mapM_cons, ih]
    cases e.members.mapM value with
    | error err => rfl
    | ok values => cases es.mapM fun e : Expr => e.members.mapM value <;> rfl

private theorem single (h : Valuation value) (e : Expr) : value (.sequence [e]) = value e := by
  rw [h.sequence, List.mapM_cons, List.mapM_nil]
  cases hvalue : value e with
  | error err => rfl
  | ok v => exact congrArg Except.ok (h.compact e v hvalue).ofList_singleton

/-- Every value is that of the sequence of the members. -/
theorem eq_members (h : Valuation value) (e : Expr) : value e = (e.members.mapM value).map .ofList := by
  rw [← h.sequence]
  cases e with
  | sequence es => rfl
  | _ => exact (h.single _).symm

private theorem sequence_members (h : Valuation value) (es : List Expr) :
    value (.sequence (es.flatMap Expr.members)) = value (.sequence es) := by
  have hlists : Gives (fun lists => ∀ values ∈ lists, AllHave Item.Flat values)
      (es.mapM fun e : Expr => e.members.mapM value) :=
    .mapM fun _ _ => .mapM fun e _ v hv => (h.compact e v hv).flat
  have hmembers : es.mapM value = (es.mapM fun e : Expr => e.members.mapM value).map (List.map .ofList) := by
    rw [← mapM_map_outcome]
    exact congrArg es.mapM (funext h.eq_members)
  rw [h.sequence, h.sequence, mapM_flatMap_members, hmembers]
  cases hvalues : es.mapM fun e : Expr => e.members.mapM value with
  | error err => rfl
  | ok lists => exact congrArg Except.ok (Item.ofList_map_ofList (hlists lists hvalues)).symm

/-- Splicing sequences into the expression and leaving a single member alone keep the value. -/
theorem ofMembers (h : Valuation value) (es : List Expr) :
    value (.ofMembers es) = value (.sequence es) := by
  rw [← h.sequence_members, Expr.ofMembers]
  split
  · next e hsingle => rw [hsingle, h.single]
  · rfl

end Valuation

namespace Eval

open Context

/-- Over functions that give compact values for compact values, expressions have compact values. -/
theorem valuation_valueIn {registry : Registry} {c : Context}
    (hr : ∀ f ∈ registry.functions, f.SeesAlike Item.Compact) (hc : c.Linked) (hshows : c.Shows Item.Compact) :
    Valuation (valueIn registry c) ∧ ∀ e, ((evaluate registry e).run.run c).2 = c := by
  have hlevels := seesAlike_levels Item.closed_compact hr (c.limits.depth - c.depth)
  have hexpr (e : Expr) := (congruence_seesAlike Item.closed_compact).expr (i := ()) (.refl registry)
    (fun _ _ => hlevels) e c c (.refl hc hshows)
  have hkeeps (e : Expr) : ((expr registry (deeperFrom registry c) e).run.run c).2 = c := (hexpr e).1
  refine ⟨⟨valueIn_sequence_of_keeps hkeeps, fun e value hvalue => ?_⟩, fun e => ?_⟩
  · rw [valueIn, run_evaluate_expr] at hvalue
    exact (hexpr e).2.2.2 value hvalue
  · rw [run_evaluate_expr]
    exact hkeeps e

/-- A sequence of expressions evaluates in the same way whether the sequences among its members are spliced
into it and a single member is left alone, or it is evaluated as it stands: with the same value or the same
error, and in the same context. The values that are found in the context are well formed or errors; all
that is asked of them is that they are compact, as all such values are. -/
theorem evaluate_ofMembers :
    (∀ v : Item, v.WellFormed ∨ v.isError = true → v.Compact) ∧
    ∀ registry : Registry,
      (∀ f ∈ registry.functions, f ∈ Registry.library.functions ∨ f.SeesAlike Item.Compact) →
      ∀ c : Context, c.Linked → c.Shows Item.Compact → ∀ es : List Expr,
        (evaluate registry (.ofMembers es)).run.run c = (evaluate registry (.sequence es)).run.run c := by
  refine ⟨fun v hv => ?_, fun registry hhost c hc hshows es => ?_⟩
  · rcases hv with hv | hv
    · exact hv.compact
    · cases v with
      | error e => exact Item.compact_error e
      | _ => contradiction
  · have hr : ∀ f ∈ registry.functions, f.SeesAlike Item.Compact := fun f hf =>
      (hhost f hf).elim (Registry.related_library (congruence_seesAlike Item.closed_compact) f) id
    obtain ⟨hvaluation, hkeeps⟩ := valuation_valueIn hr hc hshows
    exact Prod.ext (hvaluation.ofMembers es) ((hkeeps _).trans (hkeeps _).symm)

/-- An error that is the value of a variable comes before the items of the sequences behind it. -/
theorem evaluate_ofMembers_error :
    let registry := Registry.library.register hostCall
    let c := Context.withPair.bind (.simple "e") (.error .divisionByZero)
    let es : List Expr := [.sequence [], .sequence [.var (.simple "e")],
      .sequence [.var (.simple "x"), .sequence [.literal (.integer 3)]]]
    (∀ f ∈ registry.functions, f ∈ Registry.library.functions ∨ f.SeesAlike Item.Compact) ∧
      c.Linked ∧ c.Shows Item.Compact ∧
      Expr.ofMembers es =
        .sequence [.var (.simple "e"), .var (.simple "x"), .sequence [.literal (.integer 3)]] ∧
      (evaluate registry (.ofMembers es)).run.run c = (.ok (.error .divisionByZero), c) := by
  intro registry c es
  obtain ⟨hcompact, hsame⟩ := evaluate_ofMembers
  have hpair : (Item.sequence [.integer 1, .integer 2]).Compact :=
    hcompact _ (.inl (.sequence (by decide) (by simp [Item.isSequence]) (by simp [Item.WellFormed.integer])))
  have herror : (Item.error .divisionByZero).Compact := hcompact _ (.inr rfl)
  have hc : Alike Item.Compact c c :=
    ((Alike.refl linked_initial shows_initial).bind (.simple "x") hpair).bind (.simple "e") herror
  have hhost : ∀ f ∈ registry.functions, f ∈ Registry.library.functions ∨ f.SeesAlike Item.Compact := by
    exact Registry.forall_mem_register (fun f hf => .inl hf)
      (.inr (seesAlike_hostCall Item.closed_compact ⟨trivial, allHave_nil⟩))
  refine ⟨hhost, hc.left, hc.shows, rfl, ?_⟩
  rw [hsame registry hhost c hc.left hc.shows es]
  rfl

end Eval

end TreeQuery
