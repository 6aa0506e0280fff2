import TreeQuery.Proofs.Evaluation.Congruence

/-!
# Related expressions

A congruence holds of an expression and itself when it does of what is called one level deeper: by
structure of the value for calls, and by structure of the expression for everything else.
-/

namespace TreeQuery

private theorem Literal.have_toItem {W : Item → Prop} (hW : Item.Closed W) (value : Literal) :
    W value.toItem := by
  cases value with
  | integer i => exact hW.integer i
  | decimal d => exact hW.decimal d
  | double x => exact hW.double x
  | string s => exact hW.string s

/-- A function that is related to itself where the functions that it calls are. -/
def LibraryFunction.Related {ι : Type} (W : Item → Prop) (R : EvalRelation ι) (i : ι)
    (f : LibraryFunction) : Prop :=
  ∀ call₁ call₂ : Caller,
    (∀ g args, W g → AllHave W args → R i W (call₁ g args) (call₂ g args)) →
      ∀ args, AllHave W args → R i W (f.run call₁ args) (f.run call₂ args)

namespace Eval

/-! ### Arguments -/

section

variable {W : Item → Prop}

private theorem allHave_fillGaps {slots : List (Option Item)} {supplied values : List Item}
    (hslots : ArgumentsHave W slots) (hsupplied : AllHave W supplied)
    (h : fillGaps slots supplied = some values) : AllHave W values := by
  induction slots generalizing supplied values with
  | nil =>
    obtain rfl := Option.some.inj h
    exact allHave_nil
  | cons slot slots ih =>
    cases slot with
    | some value =>
      rw [argumentsHave_some_cons] at hslots
      obtain ⟨rest, hrest, rfl⟩ := Option.map_eq_some_iff.mp h
      exact allHave_cons.mpr ⟨hslots.1, ih hslots.2 hsupplied hrest⟩
    | none =>
      rw [argumentsHave_none_cons] at hslots
      cases supplied with
      | nil => contradiction
      | cons value supplied =>
        rw [allHave_cons] at hsupplied
        obtain ⟨rest, hrest, rfl⟩ := Option.map_eq_some_iff.mp h
        exact allHave_cons.mpr ⟨hsupplied.1, ih hslots hsupplied.2 hrest⟩

private theorem allHave_completeArguments {args : List (Option Item)} {values : List Item}
    (hargs : ArgumentsHave W args) (h : completeArguments args = some values) :
    AllHave W values := by
  induction args generalizing values with
  | nil =>
    obtain rfl := Option.some.inj h
    exact allHave_nil
  | cons arg args ih =>
    simp only [completeArguments, List.mapM_cons, id, Option.bind_eq_bind,
      Option.bind_eq_some_iff] at h
    obtain ⟨a, rfl, rest, hrest, hvalues⟩ := h
    obtain rfl := Option.some.inj hvalues
    rw [argumentsHave_some_cons] at hargs
    exact allHave_cons.mpr ⟨hargs.1, ih hargs.2 hrest⟩

private theorem gives_reference (hW : Item.Closed W) (registry : Registry) (name : QName) (arity : Nat) :
    Gives (fun f => W f ∧ f.arity = .ok arity) (registry.reference name arity) := by
  unfold Registry.reference
  split
  · exact .ok ⟨hW.named name arity, rfl⟩
  · exact .error _

end

namespace Congruence

variable {ι : Type} {W : Item → Prop} {below : ι → ι → Prop} {R S : EvalRelation ι} {i : ι}
  {r₁ r₂ : Registry} {d₁ d₂ : Deeper} {args : List Item}

section

variable (hR : Congruence W below R S)

include hR

/-! ### Calls -/

private theorem bindParams (params : List Param) (hargs : AllHave W args) :
    S i (fun _ => True) (bindParams params args) (bindParams params args) := by
  induction params generalizing args with
  | nil => exact hR.body (hR.pure trivial)
  | cons p params ih =>
    obtain ⟨name, type⟩ := p
    cases args with
    | nil => exact hR.body (hR.pure trivial)
    | cons value values =>
      rw [allHave_cons] at hargs
      have hbind := hR.bindVariable (i := i) name hargs.1
      cases type with
      | none => exact hR.bindBody hbind fun _ _ => ih hargs.2
      | some type =>
        refine hR.bindBody (hR.body (hR.readingAny fun _ => rfl)) fun holds _ => ?_
        cases holds with
        | true => exact hR.bindBody hbind fun _ _ => ih hargs.2
        | false =>
          exact hR.bindBody (hR.body (hR.throw (P := fun _ => True) _)) fun _ _ => ih hargs.2

private theorem checkResult (type : Option SequenceType) {value : Item} (h : W value) :
    R i W (checkResult type value) (checkResult type value) := by
  cases type with
  | none => exact hR.pure h
  | some type =>
    exact hR.bind (hR.readingAny fun _ => rfl) fun _ _ => ite (hR.pure h) (hR.throw _)

private theorem callInline (hd : ∀ j, below i j → Deeper.Related W R r₁ r₂ j d₁ d₂) (params : List Param)
    (result : Option SequenceType) (body : Expr) (hargs : AllHave W args) :
    R i W (callInline d₁ params result body args) (callInline d₂ params result body args) := by
  refine hR.descend fun j hj => hR.inScope (hR.bindBody (hR.bindParams params hargs) fun _ _ => ?_)
  have hbody : R j W (Eval.withFocus none (d₁.eval body)) (Eval.withFocus none (d₂.eval body)) :=
    hR.withFocus nofun ((hd j hj).eval body)
  exact hR.body (hR.bind hbody fun value hvalue => hR.checkResult result hvalue)

private theorem wrongArity (f : Item) (got expected : Nat) :
    R i W (wrongArity f got expected) (wrongArity f got expected) :=
  hR.reading (fun _ => rfl) fun _ _ => .error _

private theorem callMap {entries : Table Item} (h : W (.map entries)) (key : Item) :
    R i W (callMap entries key) (callMap entries key) := by
  refine hR.reading (fun _ => rfl) fun c _ => .bind_any fun k => ?_
  split
  · exact .ok (hR.closed.valueOf h _)
  · exact .error _

private theorem callArray {members : List Item} (h : W (.array members)) (index : Item) :
    R i W (callArray members index) (callArray members index) := by
  refine hR.reading (fun _ => rfl) fun c _ => .bind_any fun k => ?_
  split
  · exact .bind_any fun i => Item.gives_memberAt (hR.closed.ofArray h) i
  · exact .error _

end

section

variable (hR : Congruence W below R S) (hs : r₁.SameSignatures r₂)
  (hd : ∀ j, below i j → Deeper.Related W R r₁ r₂ j d₁ d₂)

include hR hs hd

-- In a mutual block the linter looks at one theorem at a time.
set_option linter.unusedSectionVars false

private theorem callNamed (name : QName) (hargs : AllHave W args) :
    R i W (callNamed r₁ d₁ name args) (callNamed r₂ d₂ name args) := by
  unfold Eval.callNamed
  split
  · split
    · exact hR.reading (fun _ => rfl) fun _ _ => hR.closed.gives_cast _ _
    · exact hR.throw _
  · rcases hs.cases name with ⟨h₁, h₂⟩ | ⟨f, g, h₁, h₂, hleast, hmost⟩
    · rw [h₁, h₂]
      exact hR.throw _
    · have haccepts (n : Nat) : f.accepts n = g.accepts n := by
        simp only [LibraryFunction.accepts, hleast, hmost]
      have harity : f.describeArity = g.describeArity := by
        simp only [LibraryFunction.describeArity, hleast, hmost]
      simp only [h₁, h₂, haccepts, harity]
      refine ite (hR.descend fun j hj => ?_) (hR.throw _)
      exact hR.bind ((hd j hj).run h₁ h₂ hargs) fun value hvalue =>
        hR.result (Item.gives_toResult hvalue)

mutual

/-- Calling a value that waits for arguments goes on with the value inside it and no level deeper,
so this is by structure of the value. -/
theorem callItem :
    (f : Item) → (args : List Item) → W f → AllHave W args →
      R i W (callItem r₁ d₁ f args) (callItem r₂ d₂ f args)
  | .function f, args, hf, hargs => by
    simp only [Eval.callItem]
    exact callFunction f args hf hargs
  | .map _, [key], hf, _ => by
    simp only [Eval.callItem]
    exact hR.callMap hf key
  | .array _, [index], hf, _ => by
    simp only [Eval.callItem]
    exact hR.callArray hf index
  | .map _, [], _, _ | .map _, _ :: _ :: _, _, _ | .array _, [], _, _
  | .array _, _ :: _ :: _, _, _ => by
    simp only [Eval.callItem]
    exact hR.wrongArity _ _ _
  | .integer _, _, _, _ | .decimal _, _, _, _ | .double _, _, _, _ | .string _, _, _, _
  | .boolean _, _, _, _ | .sequence _, _, _, _ | .node _, _, _, _ | .error _, _, _, _
  | .nil, _, _, _ => by
    simp only [Eval.callItem]
    exact hR.throw _

private theorem callFunction :
    (f : FunctionItem) → (args : List Item) → W (.function f) → AllHave W args →
      R i W (callFunction r₁ d₁ f args) (callFunction r₂ d₂ f args)
  | .named name arity, args, _, hargs => by
    simp only [Eval.callFunction]
    exact ite (callNamed hR hs hd name hargs) (hR.wrongArity _ _ _)
  | .inline params result body, args, _, hargs => by
    simp only [Eval.callFunction]
    exact ite (hR.callInline hd params result body hargs) (hR.wrongArity _ _ _)
  | .waiting base slots, args, hf, hargs => by
    obtain ⟨hbase, hslots⟩ := hR.closed.ofWaiting hf
    simp only [Eval.callFunction]
    refine ite ?_ (hR.wrongArity _ _ _)
    split
    · next hvalues => exact callItem base _ hbase (allHave_fillGaps hslots hargs hvalues)
    · exact hR.wrongArity _ _ _

end

/-- One level of calls: calling a value with values that have the property. -/
theorem callWithValues {f : Item} (hf : W f) (hargs : AllHave W args) :
    R i W (callWithValues r₁ d₁ f args) (callWithValues r₂ d₂ f args) := by
  unfold Eval.callWithValues
  split
  · exact hR.throw _
  · exact hR.bind (hR.callItem hs hd f args hf hargs) fun value hvalue =>
      hR.result (Item.gives_toResult hvalue)

private theorem callByName (name : QName) {args : List (Option Item)} (hargs : ArgumentsHave W args) :
    R i W (callByName r₁ d₁ name args) (callByName r₂ d₂ name args) := by
  unfold Eval.callByName
  split
  · next hvalues => exact hR.callNamed hs hd name (allHave_completeArguments hargs hvalues)
  · rw [hs.reference]
    refine hR.result ((gives_reference hR.closed r₂ name _).bind fun f hf => .ok ?_)
    exact hR.closed.waiting hf.2 hf.1 hargs

private theorem callByValue {f : Item} {args : List (Option Item)} (hf : W f)
    (hargs : ArgumentsHave W args) :
    R i W (callByValue r₁ d₁ f args) (callByValue r₂ d₂ f args) := by
  unfold Eval.callByValue
  split
  · next hvalues =>
    exact hR.callItem hs hd f _ hf (allHave_completeArguments hargs hvalues)
  · refine hR.bind (hR.result (P := fun n => f.arity = .ok n) fun _ => id) fun arity harity => ?_
    by_cases hlength : arity = args.length
    · simp only [if_pos hlength]
      exact hR.pure (hR.closed.waiting (hlength ▸ harity) hf hargs)
    · simp only [if_neg hlength]
      exact hR.wrongArity _ _ _

/-! ### Expressions -/

mutual

/-- One level of calls: an expression is related to itself if the calls in it are. -/
theorem expr : (e : Expr) → R i W (expr r₁ d₁ e) (expr r₂ d₂ e)
  | .literal value => by
    simp only [Eval.expr]
    exact hR.pure (value.have_toItem hR.closed)
  | .inlineFunction params result body => by
    simp only [Eval.expr]
    exact hR.pure (hR.closed.inline params result body)
  | .var name => by
    simp only [Eval.expr]
    exact hR.variableValue name
  | .contextItem => by
    simp only [Eval.expr]
    exact hR.contextItem
  | .root => by
    simp only [Eval.expr]
    exact hR.reading (fun _ => rfl) fun _ _ => .map_any hR.closed.node
  | .functionRef name arity => by
    simp only [Eval.expr, hs.reference]
    exact hR.result fun f hf => (gives_reference hR.closed r₂ name arity f hf).1
  | .sequence members => by
    simp only [Eval.expr]
    exact hR.bind (exprs members) fun _ h => hR.pure (hR.closed.ofList h)
  | .squareArray members => by
    simp only [Eval.expr]
    exact hR.bind (exprs members) fun _ h => hR.pure (hR.closed.array h)
  | .curlyArray content => by
    simp only [Eval.expr]
    exact hR.bind (expr content) fun _ h => hR.pure (hR.closed.array (hR.closed.items h))
  | .binary op left right => by
    simp only [Eval.expr]
    exact hR.binary op (expr left) (expr right)
  | .signed sign operand => by
    simp only [Eval.expr]
    exact hR.bind (expr operand) fun value _ => hR.reading (fun _ => rfl) fun _ _ =>
      hR.closed.gives_withSign sign value
  | .rootPath relative => by
    simp only [Eval.expr]
    exact hR.bind (hR.readingAny fun _ => rfl) fun root _ =>
      hR.followPath (expr relative) (hR.closed.node root)
  | .path left right => by
    simp only [Eval.expr]
    exact hR.bind (expr left) fun _ h => hR.followPath (expr right) h
  | .step axis test predicates => by
    simp only [Eval.expr]
    refine hR.bind (hR.readingAny fun _ => rfl) fun nodes _ => ?_
    exact hR.bind (filtered predicates _ (allHave_map hR.closed.node nodes)) fun _ h =>
      hR.pure (hR.closed.ofList h)
  | .chain base ls => by
    simp only [Eval.expr]
    exact hR.bind (expr base) fun value h => links ls value h
  | .call name args => by
    simp only [Eval.expr]
    exact hR.bind (arguments args) fun _ h => callByName hR hs hd name h
  | .forEach bindings body => by
    simp only [Eval.expr]
    exact hR.bind (forEach bindings (expr body)) fun _ h => hR.pure (hR.closed.ofList h)
  | .letIn bindings body => by
    simp only [Eval.expr]
    exact hR.inScope (letIn bindings (expr body))
  | .quantified quantifier bindings condition => by
    simp only [Eval.expr]
    exact hR.bind (quantified quantifier bindings (expr condition)) fun _ _ =>
      hR.pure (hR.closed.boolean _)
  | .ifThenElse condition whenTrue whenFalse => by
    simp only [Eval.expr]
    exact hR.bind (hR.truth (expr condition)) fun _ _ => ite (expr whenTrue) (expr whenFalse)
  | .mapOf es => by
    simp only [Eval.expr]
    exact hR.bind (entries es) fun _ h => hR.result (hR.closed.ofEntries h)
  | .arrowNamed base name args => by
    simp only [Eval.expr]
    exact hR.bind (expr base) fun _ hfirst => hR.bind (arguments args) fun _ h =>
      callByName hR hs hd name (argumentsHave_some_cons.mpr ⟨hfirst, h⟩)
  | .arrowDynamic base target args => by
    simp only [Eval.expr]
    exact hR.bind (expr base) fun _ hfirst => hR.bind (arguments args) fun _ h =>
      hR.bind (expr target) fun _ hf =>
        callByValue hR hs hd hf (argumentsHave_some_cons.mpr ⟨hfirst, h⟩)
  | .lookup key => by
    simp only [Eval.expr]
    exact hR.bind hR.contextItem fun value h => lookup key value h
  | .instanceOf operand type => by
    simp only [Eval.expr]
    exact hR.bind (expr operand) fun _ _ => hR.reading (fun _ => rfl) fun _ _ =>
      .ok (hR.closed.boolean _)
  | .castableAs operand target => by
    simp only [Eval.expr]
    exact hR.bind (expr operand) fun _ _ => hR.reading (fun _ => rfl) fun _ _ =>
      .ok (hR.closed.boolean _)
  | .treatAs operand type => by
    simp only [Eval.expr]
    refine hR.bind (expr operand) fun value h => hR.reading (fun _ => rfl) fun c _ => ?_
    split
    · exact .ok h
    · exact .error _
  | .castAs operand target => by
    simp only [Eval.expr]
    exact hR.bind (expr operand) fun value _ => hR.reading (fun _ => rfl) fun _ _ =>
      hR.closed.gives_cast target value

private theorem exprs : (es : List Expr) → R i (AllHave W) (exprs r₁ d₁ es) (exprs r₂ d₂ es)
  | [] => by
    simp only [Eval.exprs]
    exact hR.pure allHave_nil
  | e :: es => by
    simp only [Eval.exprs]
    exact hR.bind (expr e) fun _ hvalue => hR.bind (exprs es) fun _ h =>
      hR.pure (allHave_cons.mpr ⟨hvalue, h⟩)

private theorem filtered :
    (es : List Expr) → (items : List Item) → AllHave W items →
      R i (AllHave W) (filtered r₁ d₁ items es) (filtered r₂ d₂ items es)
  | [], _, h => by
    simp only [Eval.filtered]
    exact hR.pure h
  | e :: es, _, h => by
    simp only [Eval.filtered]
    exact hR.bind (hR.filterItems (expr e) h) fun kept h => filtered es kept h

/-- Arguments are evaluated in turn, and gaps are left out. -/
theorem arguments :
    (args : List Argument) → R i (ArgumentsHave W) (arguments r₁ d₁ args) (arguments r₂ d₂ args)
  | [] => by
    simp only [Eval.arguments]
    exact hR.pure argumentsHave_nil
  | .value e :: args => by
    simp only [Eval.arguments]
    exact hR.bind (expr e) fun _ hvalue => hR.bind (arguments args) fun _ h =>
      hR.pure (argumentsHave_some_cons.mpr ⟨hvalue, h⟩)
  | .placeholder :: args => by
    simp only [Eval.arguments]
    exact hR.bind (arguments args) fun _ h => hR.pure (argumentsHave_none_cons.mpr h)

private theorem links :
    (ls : List Link) → (value : Item) → W value →
      R i W (links r₁ d₁ value ls) (links r₂ d₂ value ls)
  | [], _, h => by
    simp only [Eval.links]
    exact hR.pure h
  | .predicate e :: ls, _, h => by
    simp only [Eval.links]
    exact hR.bind (hR.filterItems (expr e) (hR.closed.items h)) fun _ h =>
      links ls _ (hR.closed.ofList h)
  | .call args :: ls, _, h => by
    simp only [Eval.links]
    exact hR.bind (arguments args) fun _ hargs =>
      hR.bind (callByValue hR hs hd h hargs) fun value h => links ls value h
  | .lookup key :: ls, value, h => by
    simp only [Eval.links]
    exact hR.bind (lookup key value h) fun value h => links ls value h

private theorem lookup :
    (key : LookupKey) → (value : Item) → W value →
      R i W (lookup r₁ d₁ value key) (lookup r₂ d₂ value key)
  | .name _, _, h | .index _, _, h | .all, _, h => by
    simp only [Eval.lookup]
    exact hR.result (hR.closed.gives_lookup h _ _)
  | .computed e, _, h => by
    simp only [Eval.lookup]
    exact hR.bind (expr e) fun _ _ => hR.reading (fun _ => rfl) fun _ _ =>
      .bind_any fun _ => hR.closed.gives_lookup h _ _

/-- Each item has a scope of its own, in which the bindings that follow are looked at. -/
theorem forEach :
    (bindings : List Binding) → {body₁ body₂ : Eval Item} → R i W body₁ body₂ →
      R i (AllHave W) (forEach r₁ d₁ body₁ bindings) (forEach r₂ d₂ body₂ bindings)
  | [], _, _, hb => by
    simp only [Eval.forEach]
    exact hR.bind hb fun _ h => hR.pure (allHave_cons.mpr ⟨h, allHave_nil⟩)
  | ⟨name, e⟩ :: bindings, _, _, hb => by
    simp only [Eval.forEach]
    refine hR.bind (expr e) fun value h => ?_
    refine hR.bind (hR.mapM (Q := AllHave W) fun item hitem => hR.inScope ?_) fun _ hfound =>
      hR.pure (.flatten hfound)
    exact hR.bindBody (hR.bindVariable name (hR.closed.items h item hitem)) fun _ _ =>
      hR.body (forEach bindings hb)

/-- All bindings stay in one scope, for those that follow to see. -/
theorem letIn :
    (bindings : List Binding) → {body₁ body₂ : Eval Item} → R i W body₁ body₂ →
      S i W (letIn r₁ d₁ body₁ bindings) (letIn r₂ d₂ body₂ bindings)
  | [], _, _, hb => by
    simp only [Eval.letIn]
    exact hR.body hb
  | ⟨name, e⟩ :: bindings, _, _, hb => by
    simp only [Eval.letIn]
    exact hR.bindBody (hR.body (expr e)) fun _ h => hR.bindBody (hR.bindVariable name h) fun _ _ =>
      letIn bindings hb

private theorem quantified (quantifier : Quantifier) :
    (bindings : List Binding) → {condition₁ condition₂ : Eval Item} →
      R i W condition₁ condition₂ →
      R i (fun _ => True) (quantified r₁ d₁ quantifier condition₁ bindings)
        (quantified r₂ d₂ quantifier condition₂ bindings)
  | [], _, _, hc => by
    simp only [Eval.quantified]
    exact hR.truth hc
  | ⟨name, e⟩ :: bindings, condition₁, condition₂, hc => by
    have hholds {item : Item} (h : W item) : R i (fun _ => True)
        (Eval.inScope do
          Eval.bindVariable name item
          Eval.quantified r₁ d₁ quantifier condition₁ bindings)
        (Eval.inScope do
          Eval.bindVariable name item
          Eval.quantified r₂ d₂ quantifier condition₂ bindings) :=
      hR.inScope (hR.bindBody (hR.bindVariable name h) fun _ _ =>
        hR.body (quantified quantifier bindings hc))
    simp only [Eval.quantified]
    refine hR.bind (expr e) fun value h => ?_
    cases quantifier with
    | some => exact hR.anyM fun item hitem => hholds (hR.closed.items h item hitem)
    | every => exact hR.allM fun item hitem => hholds (hR.closed.items h item hitem)

private theorem entries :
    (es : List Entry) →
      R i (fun table : Table Item => AllHave W (Table.values table)) (entries r₁ d₁ es)
        (entries r₂ d₂ es)
  | [] => by
    simp only [Eval.entries]
    exact hR.pure allHave_nil
  | ⟨key, value⟩ :: es => by
    simp only [Eval.entries]
    exact hR.bind (expr key) fun _ _ => hR.bind (hR.readingAny fun _ => rfl) fun _ _ =>
      hR.bind (expr value) fun _ hvalue => hR.bind (entries es) fun _ h =>
        hR.pure (allHave_cons.mpr ⟨hvalue, h⟩)

end

end

/-! ### Levels -/

/-- So many levels of calls are related to themselves, by induction on the levels that are left. -/
theorem levels (hR : Congruence W below R S) {registry : Registry}
    (hr : ∀ i, ∀ f ∈ registry.functions, f.Related W R i)
    (hreached : ∀ i, R i W limitReached limitReached) (levels : Nat) (i : ι) :
    Deeper.Related W R registry registry i ⟨exprAt registry levels, callAt registry levels⟩
      ⟨exprAt registry levels, callAt registry levels⟩ := by
  have hrun {i : ι} {call : Caller}
      (hc : ∀ g args, W g → AllHave W args → R i W (call g args) (call g args)) {name : QName}
      {f g : LibraryFunction} {args : List Item} (hf : registry.resolve? name = some f)
      (hg : registry.resolve? name = some g) (hargs : AllHave W args) :
      R i W (f.run call args) (g.run call args) := by
    obtain rfl := Option.some.inj (hf.symm.trans hg)
    exact hr i f (Registry.mem_of_resolve? hf) _ _ hc args hargs
  induction levels generalizing i with
  | zero =>
    have hcall (f : Item) (args : List Item) :
        R i W (callAt registry 0 f args) (callAt registry 0 f args) := by
      simp only [callAt]
      exact hreached i
    refine ⟨fun e => ?_, fun f args _ _ => hcall f args, hrun fun g args _ _ => hcall g args⟩
    simp only [exprAt]
    exact hreached i
  | succ levels ih =>
    have hcall (f : Item) (args : List Item) (hf : W f) (hargs : AllHave W args) :
        R i W (callAt registry (levels + 1) f args) (callAt registry (levels + 1) f args) := by
      simp only [callAt]
      exact hR.callWithValues (.refl registry) (fun j _ => ih j) hf hargs
    refine ⟨fun e => ?_, hcall, hrun hcall⟩
    simp only [exprAt]
    exact hR.expr (.refl registry) (fun j _ => ih j) e

end Congruence

end Eval

end TreeQuery
