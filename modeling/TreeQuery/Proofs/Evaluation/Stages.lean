import TreeQuery.Proofs.Evaluation.Bindings
import TreeQuery.Proofs.Evaluation.Errors
import TreeQuery.Proofs.Evaluation.References
import TreeQuery.Proofs.Item.Fitted

/-!
# Calls in several stages

A call in which arguments are left open is a value that waits for them, and a later call puts its
arguments into the open places in order. However many calls it takes, and wherever they are made, what
the last one does is what one call with all the arguments does. A waiting call stands for its base with
some places filled; this is kept from stage to stage.
-/

namespace TreeQuery

namespace Eval

/-! ### Filling places -/

/-- The number of places that are open. -/
def gaps (slots : List (Option Item)) : Nat := (slots.filter Option.isNone).length

/-- Puts arguments into the open places in order; where an argument is left open the place stays so.
There must be one argument for every open place. -/
def supply? : List (Option Item) → List (Option Item) → Option (List (Option Item))
  | [], [] => some []
  | some value :: slots, args => (supply? slots args).map (some value :: ·)
  | none :: slots, arg :: args => (supply? slots args).map (arg :: ·)
  | _, _ => none

variable {slots slots' args : List (Option Item)} {xs all : List Item}

/-- With as many values as there are open places, all places are filled. -/
theorem exists_fillGaps (h : xs.length = gaps slots) :
    ∃ values, fillGaps slots xs = some values ∧ values.length = slots.length := by
  induction slots generalizing xs with
  | nil => exact ⟨[], rfl, rfl⟩
  | cons slot slots ih =>
    cases slot with
    | some value =>
      obtain ⟨values, hvalues, hlength⟩ := ih h
      exact ⟨value :: values, by rw [fillGaps, hvalues]; rfl, congrArg Nat.succ hlength⟩
    | none =>
      cases xs with
      | nil => contradiction
      | cons x xs =>
        obtain ⟨values, hvalues, hlength⟩ := ih (Nat.succ.inj h)
        exact ⟨x :: values, by rw [fillGaps, hvalues]; rfl, congrArg Nat.succ hlength⟩

private theorem fillGaps_complete (values : List Item) : fillGaps (values.map some) [] =
    some values := by
  induction values with
  | nil => rfl
  | cons value values ih => rw [List.map_cons, fillGaps, ih]; rfl

private theorem lengths_of_supply? (h : supply? slots args = some slots') :
    args.length = gaps slots ∧ gaps slots' = gaps args ∧ slots'.length = slots.length := by
  induction slots generalizing args slots' with
  | nil =>
    cases args with
    | nil => exact Option.some.inj h ▸ ⟨rfl, rfl, rfl⟩
    | cons => contradiction
  | cons slot slots ih =>
    cases slot with
    | some value =>
      obtain ⟨rest, hrest, rfl⟩ := Option.map_eq_some_iff.mp h
      obtain ⟨hargs, hgaps, hlength⟩ := ih hrest
      exact ⟨hargs, hgaps, congrArg Nat.succ hlength⟩
    | none =>
      cases args with
      | nil => contradiction
      | cons arg args =>
        obtain ⟨rest, hrest, rfl⟩ := Option.map_eq_some_iff.mp h
        obtain ⟨hargs, hgaps, hlength⟩ := ih hrest
        refine ⟨congrArg Nat.succ hargs, ?_, congrArg Nat.succ hlength⟩
        cases arg with
        | some value => exact hgaps
        | none => exact congrArg Nat.succ hgaps

/-- Values for the places that are still open go into the arguments first, and these into the places. -/
theorem fillGaps_of_supply? (h : supply? slots args = some slots') (xs : List Item) :
    fillGaps slots' xs = (fillGaps args xs).bind (fillGaps slots) := by
  induction slots generalizing args slots' xs with
  | nil =>
    cases args with
    | nil => rw [← Option.some.inj h]; rfl
    | cons => contradiction
  | cons slot slots ih =>
    cases slot with
    | some value =>
      obtain ⟨rest, hrest, rfl⟩ := Option.map_eq_some_iff.mp h
      rw [fillGaps, ih hrest, Option.map_bind]
      rfl
    | none =>
      cases args with
      | nil => contradiction
      | cons arg args =>
        obtain ⟨rest, hrest, rfl⟩ := Option.map_eq_some_iff.mp h
        cases arg with
        | some value =>
          rw [fillGaps, fillGaps, ih hrest, Option.map_bind, Option.bind_map]
          rfl
        | none =>
          cases xs with
          | nil => rfl
          | cons x xs =>
            rw [fillGaps, fillGaps, ih hrest, Option.map_bind, Option.bind_map]
            rfl

/-- Arguments that leave nothing open fill all places. -/
theorem fillGaps_of_supply?_complete (h : supply? slots (xs.map some) = some (all.map some)) :
    fillGaps slots xs = some all := by
  have hfill := fillGaps_of_supply? h []
  rwa [fillGaps_complete, fillGaps_complete, Option.bind_some, eq_comm] at hfill

/-! ### Calls of waiting calls -/

variable {registry : Registry} {deeper : Deeper} {f g : Item}

private theorem completeArguments_of_gap (h : none ∈ args) : completeArguments args = none := by
  cases hcomplete : completeArguments args with
  | none => rfl
  | some values =>
    rw [completeArguments_eq_some_iff.mp hcomplete, List.mem_map] at h
    obtain ⟨_, -, hnone⟩ := h
    contradiction

/-- With a value in every place a function is called. -/
theorem callByValue_complete (values : List Item) :
    callByValue registry deeper f (values.map some) = callItem registry deeper f values := by
  rw [callByValue, completeArguments_eq_some_iff.mpr rfl]

/-- A waiting call with its places filled is a call of its base. -/
theorem callItem_waiting (hlength : xs.length = gaps args) (hfill : fillGaps args xs = some all) :
    callItem registry deeper (.function (.waiting f args)) xs = callItem registry deeper f all := by
  rw [callItem, callFunction]
  rw [if_pos (show xs.length = (FunctionItem.waiting f args).arity from hlength), hfill]

private theorem callItem_of_arity_error {e : EvalError} (h : f.arity = .error e) (values : List Item) :
    callItem registry deeper f values = throw e := by
  cases f with
  | function | map | array => exact nomatch h
  | _ =>
    rw [← Except.error.inj h, callItem] <;> intros <;> contradiction

/-- With another number of arguments than it takes, nothing can be called. -/
theorem callItem_of_arity_ne {n : Nat} (h : f.arity = .ok n) {values : List Item} (hne : values.length ≠ n) :
    callItem registry deeper f values = wrongArity f values.length n := by
  cases f with
  | function function =>
    obtain rfl : function.arity = n := Except.ok.inj h
    rw [callItem]
    cases function <;> exact if_neg hne
  | map entries | array members =>
    obtain rfl : 1 = n := Except.ok.inj h
    match values, hne with
    | [], _ | _ :: _ :: _, _ => rfl
  | _ => exact nomatch h

/-- `g` is called like `f` with its open places filled. -/
structure StandsFor (g f : Item) (slots : List (Option Item)) : Prop where
  arity : g.arity = .ok (gaps slots)
  call : ∀ registry deeper {xs all : List Item}, xs.length = gaps slots → fillGaps slots xs = some all →
    callItem registry deeper g xs = callItem registry deeper f all

private theorem standsFor_waiting (f : Item) (slots : List (Option Item)) :
    StandsFor (.function (.waiting f slots)) f slots :=
  ⟨rfl, fun _ _ => callItem_waiting⟩

/-- One more stage in which places are left open. -/
theorem StandsFor.supply (h : StandsFor g f slots) (hsupply : supply? slots args = some slots') :
    StandsFor (.function (.waiting g args)) f slots' := by
  obtain ⟨hargs, hgaps, -⟩ := lengths_of_supply? hsupply
  refine ⟨congrArg Except.ok hgaps.symm, fun registry deeper xs all hlength hfill => ?_⟩
  obtain ⟨values, hvalues, hcount⟩ := exists_fillGaps (hlength.trans hgaps)
  rw [fillGaps_of_supply? hsupply, hvalues, Option.bind_some] at hfill
  rw [callItem_waiting (hlength.trans hgaps) hvalues]
  exact h.call registry deeper (hcount.trans hargs) hfill

/-! ### Stages -/

/-- A call in a stage: where it is made and with which arguments. -/
structure Stage where
  /-- The functions that can be called by name there. -/
  registry : Registry
  /-- The context there. -/
  context : Context
  /-- The arguments, some of which may be left open. -/
  args : List (Option Item)

/-- Calls a value in a stage. -/
def Stage.call (stage : Stage) (f : Item) : Except EvalError Item :=
  ((callByValue stage.registry (deeperFrom stage.registry stage.context) f stage.args).run.run
    stage.context).1

/-- Calls a value in the first stage, and what comes out of that in the next ones. -/
def callInStages (f : Item) (stages : List Stage) : Except EvalError Item :=
  stages.foldlM (fun g stage => stage.call g) f

/-- Fills places with the arguments of several stages in turn. -/
def suppliedFrom (slots : List (Option Item)) (stages : List Stage) : Option (List (Option Item)) :=
  stages.foldlM (fun slots stage => supply? slots stage.args) slots

/-- What the arguments of several stages come to: those of the first stage with the open places filled by
the next ones. -/
def suppliedBy : List Stage → Option (List (Option Item))
  | [] => none
  | first :: rest => suppliedFrom first.args rest

variable {stage : Stage} {stages : List Stage} {c : Context} {last : List Item}

/-- While places are left open, a call waits. -/
theorem Stage.call_of_gap (hgap : none ∈ stage.args) (harity : f.arity = .ok stage.args.length) :
    stage.call f = .ok (.function (.waiting f stage.args)) := by
  have hread : (reading fun _ => f.arity).run.run stage.context = (.ok stage.args.length, stage.context) := by
    rw [run_reading, harity]
  rw [Stage.call, callByValue, completeArguments_of_gap hgap]
  dsimp only
  rw [run_bind_ok hread, if_pos rfl]
  rfl

private theorem Stage.call_complete (values : List Item) :
    Stage.call ⟨registry, c, values.map some⟩ f =
      ((callItem registry (deeperFrom registry c) f values).run.run c).1 := by
  rw [Stage.call, callByValue_complete]

private theorem callInStages_single (stage : Stage) (f : Item) : callInStages f [stage] =
    stage.call f := by
  rw [callInStages, List.foldlM_cons]
  exact bind_pure _

/-- The stages behind a value that stands for another one end like one call of that. -/
theorem StandsFor.callInStages (h : StandsFor g f slots) (hgap : ∀ s ∈ stages, none ∈ s.args)
    (hall : suppliedFrom slots (stages ++ [⟨registry, c, last.map some⟩]) = some (all.map some)) :
    callInStages g (stages ++ [⟨registry, c, last.map some⟩]) =
      ((callItem registry (deeperFrom registry c) f all).run.run c).1 := by
  induction stages generalizing g slots with
  | nil =>
    obtain ⟨slots', hsupply, hall⟩ := Option.bind_eq_some_iff.mp hall
    rw [Option.some.inj hall] at hsupply
    have hlength := (lengths_of_supply? hsupply).1
    rw [List.length_map] at hlength
    rw [List.nil_append, callInStages_single, Stage.call_complete,
      h.call registry _ hlength (fillGaps_of_supply?_complete hsupply)]
  | cons stage stages ih =>
    obtain ⟨hfirst, hrest⟩ := List.forall_mem_cons.mp hgap
    obtain ⟨slots', hsupply, hall⟩ := Option.bind_eq_some_iff.mp hall
    have harity : g.arity = .ok stage.args.length := by
      rw [h.arity, (lengths_of_supply? hsupply).1]
    rw [Eval.callInStages, List.cons_append, List.foldlM_cons, Stage.call_of_gap hfirst harity]
    exact ih (h.supply hsupply) hrest hall

private theorem length_suppliedFrom (h : suppliedFrom slots stages = some slots') :
    slots'.length = slots.length := by
  induction stages generalizing slots with
  | nil => rw [Option.some.inj h]
  | cons stage stages ih =>
    obtain ⟨next, hsupply, h⟩ := Option.bind_eq_some_iff.mp h
    rw [ih h, (lengths_of_supply? hsupply).2.2]

/-- A call with open places fails like the call with all arguments, if it cannot wait for them. -/
theorem Stage.call_of_gap_error (hgap : none ∈ stage.args) (hforest : stage.context.forest = c.forest)
    (hlength : all.length = stage.args.length) (harity : f.arity ≠ .ok stage.args.length) :
    ∃ e, stage.call f = .error e ∧
      ((callItem registry (deeperFrom registry c) f all).run.run c).1 = .error e := by
  rw [Stage.call, callByValue, completeArguments_of_gap hgap]
  dsimp only
  rw [run_bind, run_reading]
  cases hf : f.arity with
  | error e => exact ⟨e, rfl, by rw [callItem_of_arity_error hf]; rfl⟩
  | ok n =>
    have hne : n ≠ stage.args.length := fun heq => harity (heq ▸ hf)
    dsimp only
    rw [if_neg hne, callItem_of_arity_ne hf (hlength ▸ Ne.symm hne), hlength]
    refine ⟨.arityMismatch (f.render c.forest) stage.args.length (toString n), ?_, rfl⟩
    rw [← hforest]
    rfl

/-- A call in several stages ends like one call with all arguments where the last stage is. -/
theorem callInStages_eq (f : Item) (hgap : ∀ s ∈ stages, none ∈ s.args)
    (hforest : ∀ s ∈ stages, s.context.forest = c.forest)
    (hall : suppliedBy (stages ++ [⟨registry, c, last.map some⟩]) = some (all.map some)) :
    callInStages f (stages ++ [⟨registry, c, last.map some⟩]) =
      callInStages f [⟨registry, c, all.map some⟩] := by
  rw [callInStages_single, Stage.call_complete]
  cases stages with
  | nil =>
    have hsame : last = all :=
      List.map_injective_iff.mpr (fun _ _ h => Option.some.inj h) (Option.some.inj hall)
    rw [List.nil_append, callInStages_single, Stage.call_complete, hsame]
  | cons stage stages =>
    obtain ⟨hfirst, hrest⟩ := List.forall_mem_cons.mp hgap
    have hlength : all.length = stage.args.length := by
      rw [← length_suppliedFrom hall, List.length_map]
    rw [callInStages, List.cons_append, List.foldlM_cons]
    by_cases harity : f.arity = .ok stage.args.length
    · rw [Stage.call_of_gap hfirst harity]
      exact (standsFor_waiting f stage.args).callInStages hrest hall
    · obtain ⟨e, hstage, hcall⟩ := Stage.call_of_gap_error hfirst
        (hforest stage List.mem_cons_self) hlength harity
      rw [hstage, hcall]
      rfl

/-! ### Calls in expressions -/

/-- What an expression evaluates to in a context. -/
def valueIn (registry : Registry) (c : Context) (e : Expr) : Except EvalError Item :=
  ((evaluate registry e).run.run c).1

/-- What the arguments of a call evaluate to in a context. -/
def argumentsIn (registry : Registry) (c : Context) (args : List Argument) :
    Except EvalError (List (Option Item)) :=
  ((arguments registry (deeperFrom registry c) args).run.run c).1

/-- An expression that calls a value with arguments, some of which may be left open: the name of a
function that there is stands for the function, and an arrow puts what it points from in front. -/
inductive CallOf (registry : Registry) (c : Context) : Expr → Item → List (Option Item) → Prop
  | named {name : QName} {as : List Argument} {args : List (Option Item)}
      (hname : registry.knows name as.length = true) (hargs : argumentsIn registry c as = .ok args) :
      CallOf registry c (.call name as) (.function (.named name as.length)) args
  | link {base : Expr} {f : Item} {as : List Argument} {args : List (Option Item)}
      (hbase : valueIn registry c base = .ok f) (hargs : argumentsIn registry c as = .ok args) :
      CallOf registry c (base.link (.call as)) f args
  | arrowNamed {base : Expr} {first : Item} {name : QName} {as : List Argument}
      {args : List (Option Item)} (hbase : valueIn registry c base = .ok first)
      (hname : registry.knows name (as.length + 1) = true)
      (hargs : argumentsIn registry c as = .ok args) :
      CallOf registry c (.arrowNamed base name as) (.function (.named name (as.length + 1)))
        (some first :: args)
  | arrowDynamic {base target : Expr} {first f : Item} {as : List Argument}
      {args : List (Option Item)} (hbase : valueIn registry c base = .ok first)
      (hargs : argumentsIn registry c as = .ok args) (htarget : valueIn registry c target = .ok f) :
      CallOf registry c (.arrowDynamic base target as) f (some first :: args)

section

variable {e : Expr} {as : List Argument}

private theorem length_of_argumentsIn (h : argumentsIn registry c as = .ok args) : args.length =
    as.length :=
  results_length_arguments as c args h

/-- An expression whose calls keep the context evaluates to a value and keeps the context. -/
theorem run_of_valueIn (hkeeps : ((expr registry (deeperFrom registry c) e).run.run c).2 = c)
    (h : valueIn registry c e = .ok f) :
    (expr registry (deeperFrom registry c) e).run.run c = (.ok f, c) := by
  rw [valueIn, run_evaluate_expr] at h
  exact Prod.ext h hkeeps

/-- Whatever its form, a call in an expression is a call of the value in a stage. -/
theorem CallOf.valueIn_eq (h : CallOf registry c e f args)
    (hexpr : ∀ e, ((expr registry (deeperFrom registry c) e).run.run c).2 = c)
    (harguments : ∀ as, ((arguments registry (deeperFrom registry c) as).run.run c).2 = c) :
    valueIn registry c e = Stage.call ⟨registry, c, args⟩ f := by
  have hrun {as : List Argument} {args : List (Option Item)} (h : argumentsIn registry c as = .ok args) :
      (arguments registry (deeperFrom registry c) as).run.run c = (.ok args, c) :=
    Prod.ext h (harguments as)
  rw [valueIn, run_evaluate_expr, Stage.call]
  refine congrArg Prod.fst ?_
  change (expr registry (deeperFrom registry c) e).run.run c = _
  cases h with
  | named hname hargs =>
    rw [expr, run_bind_ok (hrun hargs)]
    rw [← length_of_argumentsIn hargs] at hname ⊢
    rw [callByValue_named hname]
  | link hbase hargs =>
    rw [expr_link, run_bind_ok (run_of_valueIn (hexpr _) hbase), links, run_bind_ok (hrun hargs)]
    simp only [links, bind_pure]
  | arrowNamed hbase hname hargs =>
    rw [expr, run_bind_ok (run_of_valueIn (hexpr _) hbase), run_bind_ok (hrun hargs)]
    rw [← length_of_argumentsIn hargs] at hname ⊢
    rw [← List.length_cons, callByValue_named hname]
  | arrowDynamic hbase hargs htarget =>
    rw [expr, run_bind_ok (run_of_valueIn (hexpr _) hbase), run_bind_ok (hrun hargs),
      run_bind_ok (run_of_valueIn (hexpr _) htarget)]

end

/-- A call in which arguments are left open is done in stages: however the open places are filled by
calls of what comes out, and wherever these are made, the last one has the value or the error of one call
with all arguments in its context. This holds of every value, also of one that cannot be called, and of
every form of a call in an expression. The contexts share their forest, so that the values in the stages
are of the same trees. Waiting calls that evaluations make have as many places as their base takes
arguments, so filling them always gives a call of the base with the right number. -/
theorem partial_application_in_stages :
    (∀ (f : Item) (stages : List Stage) (registry : Registry) (c : Context) (last all : List Item),
      (∀ s ∈ stages, none ∈ s.args ∧ s.context.forest = c.forest) →
      suppliedBy (stages ++ [⟨registry, c, last.map some⟩]) = some (all.map some) →
      callInStages f (stages ++ [⟨registry, c, last.map some⟩]) =
        callInStages f [⟨registry, c, all.map some⟩]) ∧
    (∀ registry : Registry,
      (∀ f ∈ registry.functions, f ∈ Registry.library.functions ∨ f.SeesAlike Item.Fitted) →
      ∀ c : Context, c.Linked → c.Shows Item.Fitted →
        (∀ e f args, CallOf registry c e f args →
          valueIn registry c e = callInStages f [⟨registry, c, args⟩]) ∧
        ∀ e value, valueIn registry c e = .ok value → value.Fitted) ∧
    ∀ base slots args, (Item.function (.waiting base slots)).Fitted → args.length = gaps slots →
      ∃ values, fillGaps slots args = some values ∧ base.arity = .ok values.length ∧
        ∀ registry deeper, callItem registry deeper (.function (.waiting base slots)) args =
          callItem registry deeper base values := by
  refine ⟨fun f stages registry c last all hstages hall => ?_, fun registry hhost c hc hshows => ?_,
    fun base slots args hfitted hlength => ?_⟩
  · exact callInStages_eq f (fun s hs => (hstages s hs).1) (fun s hs => (hstages s hs).2) hall
  · have hR := congruence_seesAlike Item.closed_fitted
    have hr : ∀ f ∈ registry.functions, f.SeesAlike Item.Fitted := fun f hf =>
      (hhost f hf).elim (Registry.related_library hR f) id
    have hd := seesAlike_levels Item.closed_fitted hr (c.limits.depth - c.depth)
    have hexpr (e : Expr) : SeesAlike Item.Fitted () Item.Fitted
        (expr registry (deeperFrom registry c) e) (expr registry (deeperFrom registry c) e) :=
      hR.expr (.refl registry) (fun _ _ => hd) e
    have harguments (as : List Argument) : SeesAlike Item.Fitted () (ArgumentsHave Item.Fitted)
        (arguments registry (deeperFrom registry c) as) (arguments registry (deeperFrom registry c) as) :=
      hR.arguments (.refl registry) (fun _ _ => hd) as
    have hcc := Context.Alike.refl hc hshows
    refine ⟨fun e f args hcall => ?_, fun e value hvalue => ?_⟩
    · rw [callInStages_single]
      exact hcall.valueIn_eq (fun e => (hexpr e c c hcc).1) fun as => (harguments as c c hcc).1
    · rw [valueIn, run_evaluate_expr] at hvalue
      exact (hexpr e c c hcc).2.2.2 value hvalue
  · obtain ⟨values, hvalues, hcount⟩ := exists_fillGaps hlength
    refine ⟨values, hvalues, ?_, fun registry deeper => callItem_waiting hlength hvalues⟩
    rw [hfitted.arity_base, hcount]

/-- The last text first, then the first one: the middle one was there from the start. -/
theorem partial_application_in_stages_concat :
    let registry := Registry.library
    let concat : Item := .function (.named (.simple "concat") 3)
    let args : List (Option Item) := [none, some (.string "b"), none]
    let stages : List Stage := [⟨registry, {}, args⟩, ⟨registry, {}, [none, some (.string "c")]⟩]
    let last : List Item := [.string "a"]
    let all : List Item := [.string "a", .string "b", .string "c"]
    let e : Expr :=
      .call (.simple "concat") [.placeholder, .value (.literal (.string "b")), .placeholder]
    (∀ s ∈ stages, none ∈ s.args ∧ s.context.forest = ({} : Context).forest) ∧
      suppliedBy (stages ++ [⟨registry, {}, last.map some⟩]) = some (all.map some) ∧
      (callInStages concat (stages ++ [⟨registry, {}, last.map some⟩])).toOption.any
        (·.same (.string "abc")) = true ∧
      Context.Linked {} ∧ Context.Shows Item.Fitted {} ∧ CallOf registry {} e concat args ∧
      valueIn registry {} e = .ok (.function (.waiting concat args)) ∧
      (Item.function (.waiting concat args)).Fitted ∧
      ∃ values, fillGaps args [.string "a", .string "c"] = some values ∧
        concat.arity = .ok values.length := by
  intro registry concat args stages last all e
  obtain ⟨hstages, hforms, hfilled⟩ := partial_application_in_stages
  have hgaps : ∀ s ∈ stages, none ∈ s.args ∧ s.context.forest = ({} : Context).forest := by
    simp [stages, args]
  have hsupplied : suppliedBy (stages ++ [⟨registry, {}, last.map some⟩]) = some (all.map some) := rfl
  have hwhole : (callInStages concat [⟨registry, {}, all.map some⟩]).toOption.any
      (·.same (.string "abc")) = true := by
    decide +kernel
  have hcall : CallOf registry {} e concat args := .named (by decide +kernel) rfl
  obtain ⟨hcalls, hfitted⟩ :=
    hforms registry (fun _ hf => Or.inl hf) {} Context.linked_initial Context.shows_initial
  have hvalue : valueIn registry {} e = .ok (.function (.waiting concat args)) := by
    rw [hcalls e concat args hcall]
    rfl
  obtain ⟨values, hvalues, harity, -⟩ :=
    hfilled concat args [.string "a", .string "c"] (hfitted e _ hvalue) rfl
  rw [hstages concat stages registry {} last all hgaps hsupplied]
  exact ⟨hgaps, hsupplied, hwhole, Context.linked_initial, Context.shows_initial, hcall, hvalue,
    hfitted e _ hvalue, values, hvalues, harity⟩

end Eval

end TreeQuery
