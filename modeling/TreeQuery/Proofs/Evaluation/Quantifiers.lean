import TreeQuery.Proofs.Evaluation.Bindings
import TreeQuery.Proofs.Evaluation.Calls
import TreeQuery.Proofs.Evaluation.Errors
import TreeQuery.Proofs.Search

/-!
# `some` and `every` are dual

The choices of values for the variables are made in an order that depends on the bindings alone. Both
quantifiers ask the condition for one choice after another until its truth settles the whole; for `some`
this is the first choice for which the condition is true, and for `every` with the negated condition it is
the same one. An error of a source or of the condition ends the search too.
-/

namespace TreeQuery

/-! ### The choices of values -/

namespace Eval

variable {registry : Registry} {deeper : Deeper} {c : Context}

/-- The contexts in which the variables are bound, one for every choice of values, in the order in which
the choices are made. Where a source fails, its error stands in place of what would follow. -/
def tuples (registry : Registry) (deeper : Deeper) :
    List Binding → Context → List (Except EvalError Context)
  | [], c => [.ok c]
  | b :: bindings, c =>
    match ((expr registry deeper b.value).run.run c).1 with
    | .error e => [.error e]
    | .ok value =>
      value.items.flatMap fun item => tuples registry deeper bindings (c.enter.bind b.name item)

/-- Choosing values changes neither the depth of calls nor the limits. -/
theorem depth_of_mem_tuples {bindings : List Binding} {d : Context}
    (h : .ok d ∈ tuples registry deeper bindings c) : d.depth = c.depth ∧ d.limits = c.limits := by
  induction bindings generalizing c with
  | nil =>
    rw [tuples, List.mem_singleton] at h
    obtain rfl := Except.ok.inj h
    exact ⟨rfl, rfl⟩
  | cons b bindings ih =>
    rw [tuples] at h
    split at h
    · simp at h
    · obtain ⟨item, -, hd⟩ := List.mem_flatMap.mp h
      have hbound := ih hd
      exact hbound

/-- The truth of a condition in a context. -/
def truthIn (condition : Eval Item) (d : Context) : Except EvalError Bool :=
  ((truth condition).run.run d).1

/-- What a condition answers to a choice: its truth, or the error of the source. -/
def answerTo (condition : Eval Item) (t : Except EvalError Context) : Except EvalError Bool :=
  t.bind (truthIn condition)

/-- A search that reaches elements for which the answers are known ends as the search for these. -/
theorem run_search {α : Type} {q : Quantifier} {ask : α → Eval Bool}
    {answer : α → Except EvalError Bool} {as : List α}
    (h : ∀ a ∈ upTo (fun a => q.settles (answer a)) as, (ask a).run.run c = (answer a, c)) :
    (q.search ask as).run.run c = (q.search answer as, c) := by
  induction as with
  | nil =>
    rw [Quantifier.search_nil, Quantifier.search_nil]
    rfl
  | cons a as ih =>
    rw [upTo, List.forall_mem_cons] at h
    rw [Quantifier.search_cons, Quantifier.search_cons, run_bind, h.1]
    cases hanswer : answer a with
    | error e => rfl
    | ok b =>
      change (if b = q.neutral then q.search ask as else pure b).run.run c =
        (if b = q.neutral then q.search answer as else pure b, c)
      split
      · next hb =>
        refine ih fun a' ha' => h.2 a' ?_
        rwa [hanswer, Quantifier.settles_ok, hb, bne_self_eq_false]
      · rfl

/-- Going through the choices asks the condition for one tuple after another. It is enough to know what
the condition answers for the tuples that are reached. -/
theorem run_quantified (hr : registry.Keeps) (hd : deeper.Keeps) {q : Quantifier}
    {condition : Eval Item} (answer : Context → Except EvalError Bool) (bindings : List Binding)
    (h : ∀ d, .ok d ∈ upTo (fun t => q.settles (t.bind answer)) (tuples registry deeper bindings c) →
      (truth condition).run.run d = (answer d, d)) :
    (quantified registry deeper q condition bindings).run.run c =
      (q.search (·.bind answer) (tuples registry deeper bindings c), c) := by
  induction bindings generalizing c with
  | nil =>
    have hc := h c (by simp [tuples, upTo])
    rw [quantified, hc, tuples, Quantifier.search_cons, Quantifier.search_nil]
    change _ = (answer c >>= _, c)
    cases answer c with
    | error e => rfl
    | ok b =>
      change _ = (if b = q.neutral then pure q.neutral else pure b, c)
      split
      · next hb => rw [hb]; rfl
      · rfl
  | cons b bindings ih =>
    obtain ⟨name, e⟩ := b
    have hkept := keeps_expr hr hd e c
    have hsearch : quantified registry deeper q condition (⟨name, e⟩ :: bindings) =
        expr registry deeper e >>= fun value => q.search (fun item => inScope do
          bindVariable name item
          quantified registry deeper q condition bindings) value.items := by
      rw [quantified]
      cases q <;> rfl
    rw [hsearch, run_bind]
    rw [tuples] at h ⊢
    dsimp only at h ⊢
    rcases hrun : (expr registry deeper e).run.run c with ⟨r, d⟩
    rw [hrun] at hkept h
    obtain rfl : d = c := hkept
    cases r with
    | error err => cases q <;> rfl
    | ok value =>
      dsimp only at h ⊢
      rw [Quantifier.search_flatMap]
      refine run_search fun item hitem => ?_
      simp only [Quantifier.settles_search] at hitem
      rw [run_inScope]
      change (((quantified registry deeper q condition bindings).run.run (d.enter.bind name item)).1,
        d.leave ((quantified registry deeper q condition bindings).run.run
          (d.enter.bind name item)).2) = _
      rw [ih fun d' hd' => h d' (mem_upTo_flatMap hitem hd')]
      exact Prod.ext rfl (d.enter.bindsTo_bind name item).leave

/-! ### Negation -/

/-- `not(e)` -/
def negation (e : Expr) : Expr := .call (.simple "not") [.value e]

/-- `not(…)` of what an evaluation gives. -/
def negated (registry : Registry) (deeper : Deeper) (m : Eval Item) : Eval Item :=
  m >>= fun value => callByName registry deeper (.simple "not") [some value]

private theorem expr_negation (e : Expr) :
    expr registry deeper (negation e) = negated registry deeper (expr registry deeper e) := by
  simp [negation, negated, expr, arguments]

/-- Where the limits allow a call, `not(…)` is the opposite of the truth of its argument. -/
theorem run_negated {m : Eval Item} {r : Except EvalError Item} (hdepth : c.depth < c.limits.depth)
    (h : m.run.run c = (r, c)) :
    (negated .library deeper m).run.run c = ((r.bind Item.truth).map fun b => .boolean !b, c) := by
  rw [negated, run_bind, h]
  cases r with
  | error e => rfl
  | ok value =>
    have hnot : Registry.library.resolve? (.simple "not") =
        some (.unary "not" fun _ x => return .boolean !(← x.truth)) :=
      (Registry.resolve?_library_simple _).trans rfl
    refine (run_callByName [value] rfl hnot rfl hdepth rfl).trans ?_
    change ((value.truth >>= fun b => pure (.boolean !b)) >>= Item.toResult, c) =
      (value.truth.map fun b => Item.boolean !b, c)
    cases value.truth <;> rfl

private theorem run_truth_negated {m : Eval Item} (hdepth : c.depth < c.limits.depth)
    (hm : (m.run.run c).2 = c) :
    (truth (negated .library deeper m)).run.run c = ((truthIn m c).map Bool.not, c) := by
  have hrun : m.run.run c = ((m.run.run c).1, c) := Prod.ext rfl hm
  rw [truth, run_bind, run_negated hdepth hrun, truthIn, truth, run_bind, hrun]
  rcases (m.run.run c).1 with _ | value
  · rfl
  · change _ = (value.truth.map Bool.not, c)
    have hvalue : (Except.ok value : Except EvalError Item).bind Item.truth = value.truth := rfl
    rw [hvalue]
    cases value.truth <;> rfl

/-! ### What is asked of the condition -/

/-- An evaluation that depends on a condition asks for the condition in these contexts, in this order, and
nowhere else. -/
structure Asks (f : Eval Item → Eval Bool) (condition : Eval Item) (c : Context) (seen : List Context) :
    Prop where
  /-- It makes no difference what the condition does in other contexts. -/
  only : ∀ other : Eval Item, (∀ d ∈ seen, other.run.run d = condition.run.run d) →
    (f other).run.run c = (f condition).run.run c
  /-- In each of these contexts the condition is asked for, once it was in those before: if it fails there,
  this is how the whole fails. -/
  each : ∀ before d after, seen = before ++ d :: after → ∀ (other : Eval Item) (e : EvalError),
    (∀ d' ∈ before, other.run.run d' = condition.run.run d') → other.run.run d = (.error e, d) →
      (f other).run.run c = (.error e, c)

/-- The choices up to the first one for which a condition is true or fails, or whose source fails. -/
def reached (condition : Eval Item) (ts : List (Except EvalError Context)) :
    List (Except EvalError Context) :=
  upTo (fun t => Quantifier.some.settles (answerTo condition t)) ts

/-- The contexts in which a condition is evaluated: those of the choices that are reached. -/
def asked (condition : Eval Item) (ts : List (Except EvalError Context)) : List Context :=
  (reached condition ts).filterMap Except.toOption

section

variable {condition other : Eval Item} {ts : List (Except EvalError Context)} {d : Context}

private theorem mem_asked : d ∈ asked condition ts ↔ .ok d ∈ reached condition ts := by
  rw [asked, List.mem_filterMap]
  constructor
  · rintro ⟨_ | d', ht, hd⟩
    · contradiction
    · obtain rfl := Option.some.inj hd
      exact ht
  · intro h
    exact ⟨_, h, rfl⟩

private theorem answerTo_congr (h : other.run.run d = condition.run.run d) :
    answerTo other (.ok d) = answerTo condition (.ok d) := by
  change truthIn other d = truthIn condition d
  rw [truthIn, truthIn, truth, truth, run_bind, run_bind, h]

/-- In front of a context that is asked for, there are only choices for which the condition is false. -/
theorem exists_of_asked {before after : List Context} (h : asked condition ts = before ++ d :: after) :
    ∃ passed rest, ts = passed ++ .ok d :: rest ∧
      ∀ t ∈ passed, answerTo condition t = .ok false ∧ ∃ d' ∈ before, t = .ok d' := by
  obtain ⟨passed, ts', hreached, rfl, hts'⟩ := List.filterMap_eq_append_iff.mp h
  obtain ⟨skipped, t, after', rfl, hskipped, ht, -⟩ := List.filterMap_eq_cons_iff.mp hts'
  have htuple : t = .ok d := by
    cases t with
    | error e => contradiction
    | ok d' => rw [Option.some.inj ht]
  rw [reached, ← List.append_assoc, htuple] at hreached
  obtain ⟨hopen, rest, rfl⟩ := eq_append_of_upTo hreached
  refine ⟨passed ++ skipped, rest, rfl, fun t ht => ?_⟩
  have hfalse := Quantifier.settles_eq_false_iff.mp (hopen t ht)
  cases t with
  | error e => contradiction
  | ok d' =>
    refine ⟨hfalse, d', ?_, rfl⟩
    rcases List.mem_append.mp ht with ht | ht
    · exact List.mem_filterMap.mpr ⟨_, ht, rfl⟩
    · exact nomatch hskipped _ ht

/-- A search that ends with the first choice for which the condition is true asks for it up to there. -/
theorem asks_of_search {f : Eval Item → Eval Bool} {g : Bool → Bool}
    (hf : ∀ m : Eval Item, (∀ d ∈ asked m ts, (m.run.run d).2 = d) →
      (f m).run.run c = ((Quantifier.some.search (answerTo m) ts).map g, c))
    (hcondition : Keeps condition) : Asks f condition c (asked condition ts) := by
  constructor
  · intro other h
    have hanswer : ∀ t ∈ reached condition ts, answerTo other t = answerTo condition t := by
      intro t ht
      cases t with
      | error e => rfl
      | ok d => exact answerTo_congr (h d (mem_asked.mpr ht))
    have hsame : asked other ts = asked condition ts := by
      rw [asked, asked, reached, reached, upTo_congr fun t ht => congrArg _ (hanswer t ht)]
    rw [hf other (fun d hd => ?_), hf condition (fun d _ => hcondition d),
      Quantifier.search_congr hanswer]
    rw [hsame] at hd
    rw [h d hd]
    exact hcondition d
  · intro before d after hseen other e hbefore hd
    obtain ⟨passed, rest, rfl, hpassed⟩ := exists_of_asked hseen
    have hfails : answerTo other (.ok d) = .error e := by
      change truthIn other d = _
      rw [truthIn, truth, run_bind, hd]
    have hfalse : ∀ t ∈ passed, answerTo other t = .ok false := by
      intro t ht
      obtain ⟨hanswer, d', hd', rfl⟩ := hpassed t ht
      rw [answerTo_congr (hbefore d' hd'), hanswer]
    have hreached : reached other (passed ++ .ok d :: rest) = passed ++ [.ok d] := by
      rw [reached, upTo_append_cons fun t ht => Quantifier.settles_eq_false_iff.mpr (hfalse t ht), hfails]
      rfl
    rw [hf other (fun d' hd' => ?_), Quantifier.search_append_of_open hfalse, Quantifier.search_cons, hfails]
    · rfl
    · rw [mem_asked, hreached, List.mem_append, List.mem_singleton] at hd'
      rcases hd' with hd' | hd'
      · obtain ⟨-, d'', hd'', heq⟩ := hpassed _ hd'
        obtain rfl := Except.ok.inj heq
        rw [hbefore _ hd'']
        exact hcondition _
      · obtain rfl := Except.ok.inj hd'
        rw [hd]

end

/-! ### Duality -/

section

variable {condition : Eval Item} (bindings : List Binding)

/-- `some` goes through the choices up to the first one for which the condition is true. -/
theorem run_some (hr : registry.Keeps) (hd : deeper.Keeps)
    (h : ∀ d ∈ asked condition (tuples registry deeper bindings c), (condition.run.run d).2 = d) :
    (quantified registry deeper .some condition bindings).run.run c =
      (Quantifier.some.search (answerTo condition) (tuples registry deeper bindings c), c) := by
  refine run_quantified hr hd _ bindings fun d hd => Prod.ext rfl ?_
  have hkept := h d (mem_asked.mpr hd)
  rw [truth, run_bind]
  rcases hrun : condition.run.run d with ⟨_ | _, d'⟩
  · rwa [hrun] at hkept
  · rwa [hrun] at hkept

/-- `every` with the negated condition goes through the same choices, and its truth is the opposite. -/
theorem run_every_negated (hd : deeper.Keeps) (hdepth : c.depth < c.limits.depth)
    (h : ∀ d ∈ asked condition (tuples .library deeper bindings c), (condition.run.run d).2 = d) :
    (quantified .library deeper .every (negated .library deeper condition) bindings).run.run c =
      ((Quantifier.some.search (answerTo condition) (tuples .library deeper bindings c)).map Bool.not,
        c) := by
  have hanswer (t : Except EvalError Context) :
      (t.bind fun d => (truthIn condition d).map Bool.not) = Bool.not <$> answerTo condition t := by
    cases t <;> rfl
  have hsettles (r : Except EvalError Bool) :
      Quantifier.every.settles (Bool.not <$> r) = Quantifier.some.settles r := by
    rcases r with _ | b
    · rfl
    · cases b <;> rfl
  rw [run_quantified Registry.keeps_library hd (fun d => (truthIn condition d).map Bool.not) bindings
    fun d hreached => ?_]
  · simp only [hanswer, Quantifier.every_search_not]
    rfl
  · simp only [hanswer, hsettles] at hreached
    obtain ⟨hdepth', hlimits⟩ := depth_of_mem_tuples (mem_of_mem_upTo hreached)
    refine run_truth_negated ?_ (h d (mem_asked.mpr hreached))
    rwa [hdepth', hlimits]

end

private theorem run_boolean {m : Eval Bool} {r : Except EvalError Bool} (h : m.run.run c = (r, c)) :
    (m >>= fun b => pure (Item.boolean b)).run.run c = (r.map Item.boolean, c) := by
  rw [run_bind, h]
  cases r <;> rfl

/-- `some … satisfies p` ends as `not(every … satisfies not(p))` does, with the same truth or the same
error. Both ask for `p` for the same choices of values, in their order: those up to the first one for
which it is true (or which ends with an error), and no others. -/
theorem some_dual_every (bindings : List Binding) (p : Expr) {c : Context}
    (hdepth : c.depth < c.limits.depth) :
    let deeper := deeperFrom .library c
    let condition := expr .library deeper p
    let choices := tuples .library deeper bindings c
    let answer := (choices.anyM (answerTo condition)).map Item.boolean
    (evaluate .library (.quantified .some bindings p)).run.run c = (answer, c) ∧
      (evaluate .library (negation (.quantified .every bindings (negation p)))).run.run c = (answer, c) ∧
      Asks (fun m => quantified .library deeper .some m bindings) condition c (asked condition choices) ∧
      Asks (fun m => quantified .library deeper .every (negated .library deeper m) bindings) condition c
        (asked condition choices) := by
  intro deeper condition choices answer
  have hr := Registry.keeps_library
  have hd : deeper.Keeps := keeps_deeperFrom hr _
  have hcondition : Keeps condition := keeps_expr hr hd p
  have hsome (m : Eval Item) (hm : ∀ d ∈ asked m choices, (m.run.run d).2 = d) :
      (quantified .library deeper .some m bindings).run.run c =
        ((Quantifier.some.search (answerTo m) choices).map id, c) := by
    rw [run_some bindings hr hd hm, Except.map_id]
    rfl
  have hevery (m : Eval Item) (hm : ∀ d ∈ asked m choices, (m.run.run d).2 = d) :=
    run_every_negated bindings hd hdepth hm
  refine ⟨?_, ?_, asks_of_search hsome hcondition, asks_of_search hevery hcondition⟩
  · rw [run_evaluate_expr, expr, run_boolean (hsome condition fun d _ => hcondition d), Except.map_id]
    rfl
  · rw [run_evaluate_expr, expr_negation, expr, expr_negation,
      run_negated hdepth (run_boolean (hevery condition fun d _ => hcondition d))]
    change _ = ((Quantifier.some.search (answerTo condition) choices).map Item.boolean, c)
    rcases Quantifier.some.search (answerTo condition) choices with _ | b
    · rfl
    · cases b <;> rfl

/-- The last item of the outer source has no truth value, but the search does not get there: the condition
is false for both choices with the first item, and true for the first choice with the second one. -/
theorem some_dual_every_unasked :
    let x := QName.simple "x"
    let y := QName.simple "y"
    let bindings : List Binding :=
      [⟨x, .sequence [.literal (.integer 0), .literal (.integer 3), .mapOf []]⟩,
        ⟨y, .sequence [.var x, .var x]⟩]
    ({} : Context).depth < ({} : Context).limits.depth ∧
      (evaluate .library (negation (.quantified .every bindings (negation (.var y))))).run.run {} =
        (.ok (.boolean true), {}) ∧
      (asked (expr .library (deeperFrom .library {}) (.var y))
        (tuples .library (deeperFrom .library {}) bindings {})).map (·.lookup? y) =
          [some (.integer 0), some (.integer 0), some (.integer 3)] := by
  intro x y bindings
  have hdepth : ({} : Context).depth < ({} : Context).limits.depth := by decide
  obtain ⟨-, hevery, -, -⟩ := some_dual_every bindings (.var y) hdepth
  exact ⟨hdepth, hevery.trans rfl, rfl⟩

end Eval

end TreeQuery
