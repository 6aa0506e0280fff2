import TreeQuery.Proofs.Evaluation.Scopes

/-!
# The scopes of a context are a stack

Scopes lie in an array, and each knows the one around it by its place there. A scope that is entered is
put at the end of the array and taken off when it is left, whether what was done in it has succeeded or
failed. So in between the current scope is the last one and the one around each scope is right in front of
it. A variable is found as on a stack of the scopes that are open: it has the value that was bound to it
last in the innermost of them that binds it.

`Script` is whatever can be done with a context through its operations. A run of a script is followed
through all contexts that it passes, together with the bindings that were made in the open scopes.
-/

namespace TreeQuery

/-- What is done with a context, step by step. Every step may depend on the context and on how the step
before it has ended. What is done in a scope, under another focus or one call deeper is a script too, and
it may fail. -/
inductive Script (α : Type) where
  /-- The end, with a value or an error. -/
  | done (result : Except EvalError α)
  /-- Looks at the context. -/
  | look (next : Context → Script α)
  /-- Binds a variable. -/
  | bind (name : QName) (value : Item) (next : Script α)
  /-- Binds a variable whose name is given as text. -/
  | setVariable (text : String) (value : Item) (next : Except EvalError Unit → Script α)
  /-- Goes into a scope. -/
  | inScope (body : Script α) (next : Except EvalError α → Script α)
  /-- Changes the focus. -/
  | withFocus (focus : Option Focus) (body : Script α) (next : Except EvalError α → Script α)
  /-- Goes one call deeper. -/
  | descend (body : Script α) (next : Except EvalError α → Script α)

/-- Binds a variable whose name is given as text, unless that is no name. -/
def Eval.setVariable (text : String) (value : Item) : Eval Unit :=
  ExceptT.mk fun c =>
    match c.setVariable text value with
    | .ok d => (.ok (), d)
    | .error e => (.error e, c)

/-- The bindings made in the open scopes: the innermost scope comes first, and in it what was bound last. -/
abbrev Bound := List (List (QName × Item))

namespace Bound

/-- One more binding in the innermost scope. -/
def bind (name : QName) (value : Item) : Bound → Bound
  | [] => [[(name, value)]]
  | log :: logs => ((name, value) :: log) :: logs

/-- What was bound last to a variable in the innermost scope that binds it. -/
def find? (bound : Bound) (name : QName) : Option Item := bound.findSome? fun log => log.lookup name

end Bound

/-- A context that a script passes. -/
structure Moment where
  /-- The context. -/
  context : Context
  /-- The bindings that were made on the way to it, in the scopes that are open. -/
  bound : Bound

namespace Moment

/-- The moment behind a binding. -/
def bind (s : Moment) (name : QName) (value : Item) : Moment :=
  ⟨s.context.bind name value, s.bound.bind name value⟩

/-- The outcome of a binding whose name is given as text, with dollars in front of it or without them. -/
def setVariable (s : Moment) (text : String) (value : Item) : Except EvalError Unit × Moment :=
  let text := String.ofList (text.toList.dropWhile (· == '$'))
  match QName.parse? text with
  | some name => (.ok (), s.bind name value)
  | none => (.error (.invalidName text), s)

private theorem setVariable_cases (s : Moment) (text : String) (value : Item) :
    (∃ name, s.setVariable text value = (.ok (), s.bind name value)) ∨
      ∃ e, s.setVariable text value = (.error e, s) := by
  rw [setVariable]
  cases QName.parse? (String.ofList (text.toList.dropWhile (· == '$'))) with
  | some name => exact .inl ⟨name, rfl⟩
  | none => exact .inr ⟨_, rfl⟩

end Moment

/-- The course of a script. -/
structure Course (α : Type) where
  /-- The value or the error at its end. -/
  result : Except EvalError α
  /-- The moment at its end. -/
  last : Moment
  /-- All moments that it passes, from its beginning to its end. -/
  passed : List Moment

/-- The same course with more moments in front. -/
def Course.behind {α : Type} (rest : Course α) (passed : List Moment) : Course α :=
  { rest with passed := passed ++ rest.passed }

namespace Script

variable {α : Type}

/-- A script as an evaluation, made of the operations of contexts. -/
def run : Script α → Eval α
  | done result => ExceptT.mk fun c => (result, c)
  | look next => do (next (← get)).run
  | bind name value next => do
    Eval.bindVariable name value
    next.run
  | setVariable text value next => do (next (← ExceptT.lift (Eval.setVariable text value).run)).run
  | inScope body next => do (next (← ExceptT.lift (Eval.inScope body.run).run)).run
  | withFocus focus body next => do (next (← ExceptT.lift (Eval.withFocus focus body.run).run)).run
  | descend body next => do (next (← ExceptT.lift (Eval.descend body.run).run)).run

/-- A script from a moment on. Leaving a scope drops what was bound in it. -/
def course : Script α → Moment → Course α
  | done result, s => ⟨result, s, [s]⟩
  | look next, s => (next s.context).course s
  | bind name value next, s => (next.course (s.bind name value)).behind [s]
  | setVariable text value next, s =>
    let assigned := s.setVariable text value
    ((next assigned.1).course assigned.2).behind [s]
  | inScope body next, s =>
    let inner := body.course ⟨s.context.enter, [] :: s.bound⟩
    ((next inner.result).course ⟨s.context.leave inner.last.context, s.bound⟩).behind (s :: inner.passed)
  | withFocus focus body next, s =>
    let inner := body.course ⟨{ s.context with focus }, s.bound⟩
    let restored := { inner.last.context with focus := s.context.focus }
    ((next inner.result).course ⟨restored, inner.last.bound⟩).behind (s :: inner.passed)
  | descend body next, s =>
    if s.context.limits.depth ≤ s.context.depth then
      ((next (.error (.recursionLimit s.context.limits.depth))).course s).behind [s]
    else
      let inner := body.course ⟨{ s.context with depth := s.context.depth + 1 }, s.bound⟩
      let restored := { inner.last.context with depth := inner.last.context.depth - 1 }
      ((next inner.result).course ⟨restored, inner.last.bound⟩).behind (s :: inner.passed)

/-- What comes behind an attempt goes on from where the attempt has ended, with a value or an error. -/
theorem run_attempt {β γ : Type} (m : Eval β) (f : Except EvalError β → Eval γ) (c : Context) :
    (do f (← ExceptT.lift m.run)).run.run c = (f (m.run.run c).1).run.run (m.run.run c).2 :=
  rfl

private theorem run_setVariable (s : Moment) (text : String) (value : Item) :
    (Eval.setVariable text value).run.run s.context =
      ((s.setVariable text value).1, (s.setVariable text value).2.context) := by
  have hrun : (Eval.setVariable text value).run.run s.context =
      match s.context.setVariable text value with
      | .ok d => (.ok (), d)
      | .error e => (.error e, s.context) := rfl
  rw [hrun, Context.setVariable, Moment.setVariable]
  cases QName.parse? (String.ofList (text.toList.dropWhile (· == '$'))) <;> rfl

/-- The course of a script ends as its run does. -/
theorem run_eq_course (script : Script α) (s : Moment) :
    script.run.run.run s.context = ((script.course s).result, (script.course s).last.context) := by
  induction script generalizing s with
  | done result => rfl
  | look next ih => exact ih s.context s
  | bind name value next ih => exact ih (s.bind name value)
  | setVariable text value next ih =>
    rw [run, run_attempt, run_setVariable]
    exact ih _ _
  | inScope body next ihBody ihNext =>
    rw [run, run_attempt, Eval.run_inScope, ihBody ⟨s.context.enter, [] :: s.bound⟩]
    exact ihNext _ ⟨_, _⟩
  | withFocus focus body next ihBody ihNext =>
    rw [run, run_attempt, Eval.run_withFocus, ihBody ⟨{ s.context with focus }, s.bound⟩]
    exact ihNext _ ⟨_, _⟩
  | descend body next ihBody ihNext =>
    rw [run, run_attempt, Eval.run_descend, course]
    split
    · exact ihNext _ s
    · rw [ihBody ⟨{ s.context with depth := s.context.depth + 1 }, s.bound⟩]
      exact ihNext _ ⟨_, _⟩

end Script

/-! ### Stacks of scopes -/

/-- The scopes of a context are a stack. -/
structure Context.IsStack (c : Context) : Prop where
  /-- The current scope is the last one. -/
  current : c.current + 1 = c.scopes.size
  /-- The scope around each scope is the one in front of it, and there is none around the first one. -/
  parent : ∀ i s, c.scopes[i]? = some s → s.parent = if i = 0 then none else some (i - 1)

/-- At a moment the scopes are a stack, and on it the bindings are found that were made. -/
structure Moment.Sound (s : Moment) : Prop where
  stack : s.context.IsStack
  lookup : ∀ name, s.context.lookup? name = s.bound.find? name

private theorem Bound.find?_bind (bound : Bound) (name : QName) (value : Item) (other : QName) :
    (bound.bind name value).find? other = if other = name then some value else bound.find? other := by
  have hlookup (log : List (QName × Item)) : ((name, value) :: log).lookup other =
      if other = name then some value else log.lookup other := by
    rw [List.lookup_cons]
    by_cases h : other = name
    · rw [if_pos h, beq_iff_eq.mpr h]
    · rw [if_neg h, beq_false_of_ne h]
  cases bound with
  | nil => by_cases h : other = name <;> simp [Bound.bind, Bound.find?, hlookup, h]
  | cons log logs =>
    by_cases h : other = name <;> simp [Bound.bind, Bound.find?, List.findSome?_cons, hlookup, h]

namespace Context

variable {c d : Context}

/-- A context in which nothing is bound. -/
def unbound (c : Context) : Context := { c with scopes := #[⟨none, []⟩], current := 0 }

private theorem isStack_unbound (c : Context) : c.unbound.IsStack where
  current := rfl
  parent i s hs := by
    obtain ⟨hi, rfl⟩ := Array.getElem?_eq_some_iff.mp hs
    obtain rfl : i = 0 := Nat.lt_one_iff.mp hi
    rfl

private theorem IsStack.linked (hc : c.IsStack) : c.Linked where
  current := by
    rw [← hc.current]
    exact Nat.lt_succ_self _
  parent i s hs p hp := by
    rw [hc.parent i s hs] at hp
    split at hp
    · contradiction
    · next hi =>
      rw [← Option.some.inj hp]
      exact Nat.sub_one_lt hi

/-- The way out of the scopes ends: no more steps are needed than there are scopes. -/
theorem IsStack.lookupWithin_eq (hc : c.IsStack) (name : QName) {steps : Nat}
    (h : c.scopes.size ≤ steps) : lookupWithin c.scopes name steps c.current = c.lookup? name := by
  have hcurrent := hc.linked.current
  exact hc.linked.lookupWithin_congr name (fun _ _ => rfl) hcurrent (by omega) hcurrent

private theorem IsStack.bind (hc : c.IsStack) (name : QName) (value : Item) :
    (c.bind name value).IsStack where
  current := by
    rw [Context.bind, Array.size_modify]
    exact hc.current
  parent i s hs := by
    rw [Context.bind, Array.getElem?_modify] at hs
    split at hs
    · obtain ⟨t, ht, rfl⟩ := Option.map_eq_some_iff.mp hs
      exact hc.parent i t ht
    · exact hc.parent i s hs

private theorem IsStack.enter (hc : c.IsStack) : c.enter.IsStack where
  current := by rw [Context.enter, Array.size_push]
  parent i s hs := by
    rw [Context.enter, Array.getElem?_push] at hs
    split at hs
    · next hi =>
      obtain rfl := Option.some.inj hs
      have hcurrent := hc.current
      rw [if_neg (by omega), hi, ← hcurrent, Nat.add_sub_cancel]
    · exact hc.parent i s hs

/-- Bindings that were made under another focus stay when the focus is put back. -/
theorem BindsTo.withFocus {focus : Option Focus} (h : BindsTo { c with focus } d) :
    c.BindsTo { d with focus := c.focus } := by
  obtain ⟨scopes, rfl, hsize, hother⟩ := h
  exact ⟨scopes, rfl, hsize, hother⟩

/-- Bindings that were made one call deeper stay when the call ends. -/
theorem BindsTo.descend (h : BindsTo { c with depth := c.depth + 1 } d) :
    c.BindsTo { d with depth := d.depth - 1 } := by
  obtain ⟨scopes, rfl, hsize, hother⟩ := h
  exact ⟨scopes, rfl, hsize, hother⟩

end Context

private theorem Moment.bindsTo_setVariable (s : Moment) (text : String) (value : Item) :
    s.context.BindsTo (s.setVariable text value).2.context := by
  rcases s.setVariable_cases text value with ⟨name, h⟩ | ⟨e, h⟩ <;> rw [h]
  · exact s.context.bindsTo_bind name value
  · exact .refl _

namespace Moment.Sound

variable {s : Moment}

private theorem bind (hs : s.Sound) (name : QName) (value : Item) : (s.bind name value).Sound where
  stack := hs.stack.bind name value
  lookup other := by
    rw [Moment.bind, hs.stack.linked.lookup?_bind, hs.lookup, Bound.find?_bind]

private theorem setVariable (hs : s.Sound) (text : String) (value : Item) :
    (s.setVariable text value).2.Sound := by
  rcases s.setVariable_cases text value with ⟨name, h⟩ | ⟨e, h⟩ <;> rw [h]
  · exact hs.bind name value
  · exact hs

private theorem enter (hs : s.Sound) : Moment.Sound ⟨s.context.enter, [] :: s.bound⟩ where
  stack := hs.stack.enter
  lookup name := (hs.stack.linked.lookup?_enter name).trans (hs.lookup name)

private theorem withFocus (hs : s.Sound) (focus : Option Focus) :
    Moment.Sound ⟨{ s.context with focus }, s.bound⟩ :=
  ⟨⟨hs.stack.current, hs.stack.parent⟩, hs.lookup⟩

private theorem withDepth (hs : s.Sound) (depth : Nat) :
    Moment.Sound ⟨{ s.context with depth }, s.bound⟩ :=
  ⟨⟨hs.stack.current, hs.stack.parent⟩, hs.lookup⟩

end Moment.Sound

private theorem Course.forall_mem_behind {α : Type} {P : Moment → Prop} {rest : Course α}
    {passed : List Moment}
    (hpassed : ∀ m ∈ passed, P m) (hrest : ∀ m ∈ rest.passed, P m) :
    ∀ m ∈ (rest.behind passed).passed, P m :=
  List.forall_mem_append.mpr ⟨hpassed, hrest⟩

namespace Script

open Context Course

variable {α : Type}

/-- A script binds variables in the scope in which it is run, and changes nothing else there. -/
theorem bindsTo_course (script : Script α) (s : Moment) :
    s.context.BindsTo (script.course s).last.context := by
  induction script generalizing s with
  | done result => exact .refl _
  | look next ih => exact ih s.context s
  | bind name value next ih => exact (s.context.bindsTo_bind name value).trans (ih (s.bind name value))
  | setVariable text value next ih =>
    exact (s.bindsTo_setVariable text value).trans (ih _ _)
  | inScope body next ihBody ihNext =>
    have hleave := (ihBody ⟨s.context.enter, [] :: s.bound⟩).leave
    refine BindsTo.trans ?_ (ihNext _ ⟨s.context.leave _, s.bound⟩)
    rw [hleave]
    exact .refl _
  | withFocus focus body next ihBody ihNext =>
    exact (ihBody ⟨{ s.context with focus }, s.bound⟩).withFocus.trans (ihNext _ ⟨_, _⟩)
  | descend body next ihBody ihNext =>
    rw [course]
    split
    · exact ihNext _ s
    · exact (ihBody ⟨{ s.context with depth := s.context.depth + 1 }, s.bound⟩).descend.trans
        (ihNext _ ⟨_, _⟩)

private theorem last_mem_passed (script : Script α) (s : Moment) :
    (script.course s).last ∈ (script.course s).passed := by
  induction script generalizing s with
  | done result => exact List.mem_singleton_self s
  | look next ih => exact ih s.context s
  | bind name value next ih => exact List.mem_append_right _ (ih (s.bind name value))
  | setVariable text value next ih => exact List.mem_append_right _ (ih _ _)
  | inScope body next ihBody ihNext => exact List.mem_append_right _ (ihNext _ ⟨_, _⟩)
  | withFocus focus body next ihBody ihNext => exact List.mem_append_right _ (ihNext _ ⟨_, _⟩)
  | descend body next ihBody ihNext =>
    rw [course]
    split
    · exact List.mem_append_right _ (ihNext _ s)
    · exact List.mem_append_right _ (ihNext _ ⟨_, _⟩)

/-- All moments of a script are sound if the first one is, by induction on the script. -/
theorem sound_of_mem_passed (script : Script α) {s : Moment} (hs : s.Sound) :
    ∀ m ∈ (script.course s).passed, m.Sound := by
  induction script generalizing s with
  | done result => exact List.forall_mem_singleton.mpr hs
  | look next ih => exact ih s.context hs
  | bind name value next ih =>
    exact forall_mem_behind (List.forall_mem_singleton.mpr hs) (ih (hs.bind name value))
  | setVariable text value next ih =>
    exact forall_mem_behind (List.forall_mem_singleton.mpr hs) (ih _ (hs.setVariable text value))
  | inScope body next ihBody ihNext =>
    have hbody := ihBody hs.enter
    have hleave := (bindsTo_course body ⟨s.context.enter, [] :: s.bound⟩).leave
    refine forall_mem_behind (List.forall_mem_cons.mpr ⟨hs, hbody⟩) (ihNext _ ?_)
    rw [hleave]
    exact hs
  | withFocus focus body next ihBody ihNext =>
    have hbody := ihBody (hs.withFocus focus)
    have hlast := hbody _ (last_mem_passed body _)
    exact forall_mem_behind (List.forall_mem_cons.mpr ⟨hs, hbody⟩)
      (ihNext _ (hlast.withFocus s.context.focus))
  | descend body next ihBody ihNext =>
    rw [course]
    split
    · exact forall_mem_behind (List.forall_mem_singleton.mpr hs) (ihNext _ hs)
    · have hbody := ihBody (hs.withDepth (s.context.depth + 1))
      have hlast := hbody _ (last_mem_passed body _)
      exact forall_mem_behind (List.forall_mem_cons.mpr ⟨hs, hbody⟩)
        (ihNext _ (hlast.withDepth _))

end Script

/-- The moment at which a script finds a context in which nothing is bound. -/
def Moment.start (c : Context) : Moment := ⟨c.unbound, [[]]⟩

/-- In the course of any script, with all that it does in scopes, under other foci and in calls, and
whether that succeeds or fails, the scopes are a stack: the current scope is the last one, and the one
around each scope is the one in front of it. A variable has the value that was bound to it last in the
innermost open scope that binds it, and without such a scope it has none; the way out of the scopes ends
in as many steps as there are scopes. A scope that is entered anywhere and left again leaves the context
as it was, whatever is done in it. -/
theorem Script.scopes_form_stack {α : Type} (script : Script α) (c : Context) :
    script.run.run.run c.unbound =
        ((script.course (.start c)).result, (script.course (.start c)).last.context) ∧
      (script.course (.start c)).last ∈ (script.course (.start c)).passed ∧
      ∀ m ∈ (script.course (.start c)).passed, m.context.IsStack ∧
        (∀ name, m.context.lookup? name = m.bound.find? name) ∧
        (∀ name steps, m.context.scopes.size ≤ steps →
          Context.lookupWithin m.context.scopes name steps m.context.current = m.bound.find? name) ∧
        ∀ {β : Type} (body : Script β), ((Eval.inScope body.run).run.run m.context).2 = m.context := by
  refine ⟨script.run_eq_course (.start c), script.last_mem_passed _, fun m hm => ?_⟩
  have hstart : Moment.Sound (.start c) := ⟨c.isStack_unbound, fun _ => rfl⟩
  have hsound := script.sound_of_mem_passed hstart m hm
  refine ⟨hsound.stack, hsound.lookup, fun name steps h => ?_, fun body => ?_⟩
  · rw [hsound.stack.lookupWithin_eq name h, hsound.lookup]
  · have hleave := (body.bindsTo_course ⟨m.context.enter, [] :: m.bound⟩).leave
    rwa [Eval.run_inScope, body.run_eq_course ⟨m.context.enter, [] :: m.bound⟩]

/-- A script that binds a variable again in a scope, and another one, and fails there. -/
def Script.shadowing : Script Item :=
  .bind (.simple "x") (.integer 1)
    (.inScope (.bind (.simple "x") (.integer 2) (.setVariable "$y" (.integer 3) fun _ =>
        .done (.error .undefinedContext)))
      fun _ => .done (.ok .empty))

/-- In the scope the bindings made there are found, and behind it those that were made before. -/
theorem Script.scopes_form_stack_shadowing :
    ∃ m ∈ (shadowing.course (.start {})).passed,
      m.context.lookup? (.simple "x") = some (.integer 2) ∧
      m.context.lookup? (.simple "y") = some (.integer 3) ∧
      (shadowing.course (.start {})).last.context.lookup? (.simple "x") = some (.integer 1) ∧
      (shadowing.course (.start {})).last.context.lookup? (.simple "y") = none := by
  obtain ⟨-, hlast, hpassed⟩ := shadowing.scopes_form_stack {}
  have hinside : Moment.mk _ [[(.simple "y", .integer 3), (.simple "x", .integer 2)],
      [(.simple "x", .integer 1)]] ∈ (shadowing.course (.start {})).passed :=
    List.mem_of_getElem? (i := 4) rfl
  have hfound := (hpassed _ hinside).2.1
  have hleft := (hpassed _ hlast).2.1
  exact ⟨_, hinside, hfound _, hfound _, hleft _, hleft _⟩

end TreeQuery
