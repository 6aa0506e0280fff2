import TreeQuery.Expr.Canonical
import TreeQuery.Proofs.Expr.WellFormed

/-!
# What canonical text is read as

The canonical text of an expression is not always read as the expression: paths are grouped from the
left again, since their text has no parentheses. `reread` is the expression that comes out, and
`nesting` is how many levels of nesting its text needs. A plain expression is reread as itself, and
needs at most two levels more for every level of its height.
-/

namespace TreeQuery

/-- The test without an empty target, which is not written. -/
def KindTest.reread : KindTest → KindTest
  | .processingInstruction (some "") => .processingInstruction none
  | test => test

/-- The type without an empty target in its test. -/
def ItemType.reread : ItemType → ItemType
  | .node test => .node test.reread
  | type => type

/-- The type of the items without an empty target. -/
def SequenceType.reread : SequenceType → SequenceType
  | .empty => .empty
  | .items type occurrence => .items type.reread occurrence

/-- The parameter without an empty target in its type. -/
def Param.reread (p : Param) : Param := { p with type := p.type.map SequenceType.reread }

/-- The test without an empty target. -/
def NodeTest.reread : NodeTest → NodeTest
  | .kind test => .kind test.reread
  | test => test

/-- How many levels of nesting the text of a literal needs: one more for a cast. -/
def Literal.nesting : Literal → Nat
  | .double value => if (Binary.ofFloat? value).isSome then 1 else 2
  | _ => 1

/-- The expression that the text of a literal is read as. -/
def Literal.reread : Literal → Expr
  | .decimal value =>
    .literal (.decimal ((Decimal.read? (renderDecimalLiteral value).toList).getD value))
  | .double value =>
    if (Binary.ofFloat? value).isSome then .literal (.double value)
    else .castAs (.literal (.string (renderDouble value))) ⟨.double, false⟩
  | value => .literal value

/-- What stands in front of an expression on its way into a path. -/
inductive Front where
  /-- Nothing: the expression stands alone. -/
  | alone
  /-- A leading `/`. -/
  | root
  /-- `left/` -/
  | after (left : Expr)

/-- The expression behind its front. -/
def Front.put : Front → Expr → Expr
  | .alone, e => e
  | .root, e => .rootPath e
  | .after left, e => .path left e

namespace Expr

/-- The levels that an expression among commas or next to an operator needs, if so many are needed
for its text without parentheses. -/
def operandNesting (e : Expr) (levels : Nat) : Nat :=
  match e with
  | .sequence (_ :: _) => levels + 1
  | _ => levels

/-- The levels that an expression with links behind it needs. -/
def baseNesting (e : Expr) (levels : Nat) : Nat :=
  match e with
  | .path .. | .root | .rootPath _ | .step .. => levels + 1
  | e => operandNesting e levels

/-- The levels that the target of an arrow needs behind the arrow. -/
def targetNesting (e : Expr) (levels : Nat) : Nat :=
  match e with
  | .var _ => 0
  | _ => levels

end Expr

mutual

/-- How many levels of nesting the text of an expression needs behind so many others. -/
def Expr.nesting : Expr → Nat → Nat
  | .literal value, outer => outer + value.nesting
  | .var _, outer | .contextItem, outer | .root, outer | .functionRef .., outer => outer + 1
  | .sequence members, outer => outer + max 1 (Expr.nestingAll members)
  | .binary _ left right, outer =>
    outer + max (1 + Expr.operandNesting left (left.nesting 0))
      (2 + Expr.operandNesting right (right.nesting 0))
  | .signed _ operand, outer => outer + (2 + Expr.operandNesting operand (operand.nesting 0))
  | .rootPath relative, _ => Expr.operandNesting relative (relative.nesting 1)
  | .path left right, outer =>
    max (Expr.operandNesting left (left.nesting outer)) (Expr.operandNesting right (right.nesting 1))
  | .step _ _ predicates, outer => outer + (1 + Expr.nestingPredicates predicates)
  | .chain base links, outer =>
    outer + max (Expr.baseNesting base (base.nesting 0)) (1 + Link.nestingAll links)
  | .call _ args, outer => outer + (1 + Argument.nestingAll args)
  | .inlineFunction _ _ body, outer => outer + (1 + body.nesting 0)
  | .forEach bindings body, outer | .letIn bindings body, outer | .quantified _ bindings body, outer =>
    outer + (2 + max (Binding.nestingAll bindings) (Expr.operandNesting body (body.nesting 0)))
  | .ifThenElse condition whenTrue whenFalse, outer =>
    outer + (2 + max (condition.nesting 0)
      (max (Expr.operandNesting whenTrue (whenTrue.nesting 0))
        (Expr.operandNesting whenFalse (whenFalse.nesting 0))))
  | .mapOf entries, outer => outer + (1 + Entry.nestingAll entries)
  | .squareArray members, outer => outer + (1 + Expr.nestingAll members)
  | .curlyArray content, outer => outer + (1 + content.nesting 0)
  | .arrowNamed base _ args, outer =>
    outer + max (1 + Expr.operandNesting base (base.nesting 0)) (2 + Argument.nestingAll args)
  | .arrowDynamic base target args, outer =>
    outer + max (1 + Expr.operandNesting base (base.nesting 0))
      (2 + max (Expr.targetNesting target (target.nesting 0)) (Argument.nestingAll args))
  | .lookup key, outer => outer + (1 + key.nesting)
  | .instanceOf operand _, outer | .treatAs operand _, outer | .castableAs operand _, outer
  | .castAs operand _, outer => outer + (1 + Expr.operandNesting operand (operand.nesting 0))

/-- The levels that expressions among commas need. -/
def Expr.nestingAll : List Expr → Nat
  | [] => 0
  | e :: es => max (Expr.operandNesting e (e.nesting 0)) (Expr.nestingAll es)

/-- The levels that predicates need. -/
def Expr.nestingPredicates : List Expr → Nat
  | [] => 0
  | e :: es => max (e.nesting 0) (Expr.nestingPredicates es)

/-- The levels that bindings need. -/
def Binding.nestingAll : List Binding → Nat
  | [] => 0
  | ⟨_, value⟩ :: bs => max (Expr.operandNesting value (value.nesting 0)) (Binding.nestingAll bs)

/-- The levels that map entries need. -/
def Entry.nestingAll : List Entry → Nat
  | [] => 0
  | ⟨key, value⟩ :: es =>
    max (max (Expr.operandNesting key (key.nesting 0)) (Expr.operandNesting value (value.nesting 0)))
      (Entry.nestingAll es)

/-- The levels that arguments need. -/
def Argument.nestingAll : List Argument → Nat
  | [] => 0
  | .value e :: as => max (Expr.operandNesting e (e.nesting 0)) (Argument.nestingAll as)
  | .placeholder :: as => Argument.nestingAll as

/-- The levels that a lookup key needs. -/
def LookupKey.nesting : LookupKey → Nat
  | .computed e => e.nesting 0
  | _ => 0

/-- The levels that links need. -/
def Link.nestingAll : List Link → Nat
  | [] => 0
  | .predicate e :: ls => max (e.nesting 0) (Link.nestingAll ls)
  | .call args :: ls => max (Argument.nestingAll args) (Link.nestingAll ls)
  | .lookup key :: ls => max key.nesting (Link.nestingAll ls)

end

mutual

/-- The expression that the text of an expression is read as behind a front. -/
def Expr.rereadAt : Expr → Front → Expr
  | .literal value, front => front.put value.reread
  | .var name, front => front.put (.var name)
  | .contextItem, front => front.put .contextItem
  | .sequence members, front => front.put (.sequence (Expr.rereadAll members))
  | .binary op left right, front =>
    front.put (.binary op (left.rereadAt .alone) (right.rereadAt .alone))
  | .signed sign operand, front => front.put (.signed sign (operand.rereadAt .alone))
  | .root, front => front.put .root
  | .rootPath relative, _ => relative.rereadAt .root
  | .path left right, front => right.rereadAt (.after (left.rereadAt front))
  | .step axis test predicates, front =>
    front.put (.step axis test.reread (Expr.rereadAll predicates))
  | .chain base links, front => front.put (.chain (base.rereadAt .alone) (Link.rereadAll links))
  | .call name args, front => front.put (.call name (Argument.rereadAll args))
  | .functionRef name arity, front => front.put (.functionRef name arity)
  | .inlineFunction params result body, front =>
    front.put (.inlineFunction (params.map Param.reread) (result.map SequenceType.reread)
      (body.rereadAt .alone))
  | .forEach bindings body, front =>
    front.put (.forEach (Binding.rereadAll bindings) (body.rereadAt .alone))
  | .letIn bindings body, front =>
    front.put (.letIn (Binding.rereadAll bindings) (body.rereadAt .alone))
  | .quantified quantifier bindings condition, front =>
    front.put (.quantified quantifier (Binding.rereadAll bindings) (condition.rereadAt .alone))
  | .ifThenElse condition whenTrue whenFalse, front =>
    front.put (.ifThenElse (condition.rereadAt .alone) (whenTrue.rereadAt .alone)
      (whenFalse.rereadAt .alone))
  | .mapOf entries, front => front.put (.mapOf (Entry.rereadAll entries))
  | .squareArray members, front => front.put (.squareArray (Expr.rereadAll members))
  | .curlyArray content, front => front.put (.curlyArray (content.rereadAt .alone))
  | .arrowNamed base name args, front =>
    front.put (.arrowNamed (base.rereadAt .alone) name (Argument.rereadAll args))
  | .arrowDynamic base target args, front =>
    front.put (.arrowDynamic (base.rereadAt .alone) (target.rereadAt .alone)
      (Argument.rereadAll args))
  | .lookup key, front => front.put (.lookup key.reread)
  | .instanceOf operand type, front =>
    front.put (.instanceOf (operand.rereadAt .alone) type.reread)
  | .treatAs operand type, front => front.put (.treatAs (operand.rereadAt .alone) type.reread)
  | .castableAs operand target, front => front.put (.castableAs (operand.rereadAt .alone) target)
  | .castAs operand target, front => front.put (.castAs (operand.rereadAt .alone) target)

/-- The expressions that texts among commas are read as. -/
def Expr.rereadAll : List Expr → List Expr
  | [] => []
  | e :: es => e.rereadAt .alone :: Expr.rereadAll es

/-- The bindings that the text of bindings is read as. -/
def Binding.rereadAll : List Binding → List Binding
  | [] => []
  | ⟨name, value⟩ :: bs => ⟨name, value.rereadAt .alone⟩ :: Binding.rereadAll bs

/-- The entries that the text of entries is read as. -/
def Entry.rereadAll : List Entry → List Entry
  | [] => []
  | ⟨key, value⟩ :: es => ⟨key.rereadAt .alone, value.rereadAt .alone⟩ :: Entry.rereadAll es

/-- The arguments that the text of arguments is read as. -/
def Argument.rereadAll : List Argument → List Argument
  | [] => []
  | .value e :: as => .value (e.rereadAt .alone) :: Argument.rereadAll as
  | .placeholder :: as => .placeholder :: Argument.rereadAll as

/-- The key that the text of a key is read as. -/
def LookupKey.reread : LookupKey → LookupKey
  | .computed e => .computed (e.rereadAt .alone)
  | key => key

/-- The links that the text of links is read as. -/
def Link.rereadAll : List Link → List Link
  | [] => []
  | .predicate e :: ls => .predicate (e.rereadAt .alone) :: Link.rereadAll ls
  | .call args :: ls => .call (Argument.rereadAll args) :: Link.rereadAll ls
  | .lookup key :: ls => .lookup key.reread :: Link.rereadAll ls

end

/-! ### Lists -/

/-- The expression that the text of an expression is read as. -/
def Expr.reread (e : Expr) : Expr := e.rereadAt .alone

/-- The levels that an expression among commas or next to an operator needs. -/
def Expr.levels (e : Expr) : Nat := e.operandNesting (e.nesting 0)

/-- The binding that the text of a binding is read as. -/
def Binding.reread (b : Binding) : Binding := ⟨b.name, b.value.reread⟩

/-- The entry that the text of an entry is read as. -/
def Entry.reread (e : Entry) : Entry := ⟨e.key.reread, e.value.reread⟩

/-- The argument that the text of an argument is read as. -/
def Argument.reread : Argument → Argument
  | .value e => .value e.reread
  | .placeholder => .placeholder

/-- The levels that an argument needs. -/
def Argument.levels : Argument → Nat
  | .value e => e.levels
  | .placeholder => 0

/-- The link that the text of a link is read as. -/
def Link.reread : Link → Link
  | .predicate e => .predicate e.reread
  | .call args => .call (args.map Argument.reread)
  | .lookup key => .lookup key.reread

/-- The levels that a link needs. -/
def Link.levels : Link → Nat
  | .predicate e => e.nesting 0
  | .call args => Argument.nestingAll args
  | .lookup key => key.nesting

theorem Expr.rereadAll_eq (es : List Expr) : Expr.rereadAll es = es.map Expr.reread := by
  induction es with
  | nil => rfl
  | cons e es ih => rw [Expr.rereadAll, ih, List.map_cons, Expr.reread]

theorem Binding.rereadAll_eq (bs : List Binding) : Binding.rereadAll bs = bs.map Binding.reread := by
  induction bs with
  | nil => rfl
  | cons b bs ih =>
    cases b
    rw [Binding.rereadAll, ih, List.map_cons, Binding.reread, Expr.reread]

theorem Entry.rereadAll_eq (es : List Entry) : Entry.rereadAll es = es.map Entry.reread := by
  induction es with
  | nil => rfl
  | cons e es ih =>
    cases e
    rw [Entry.rereadAll, ih, List.map_cons, Entry.reread, Expr.reread, Expr.reread]

theorem Argument.rereadAll_eq (as : List Argument) :
    Argument.rereadAll as = as.map Argument.reread := by
  induction as with
  | nil => rfl
  | cons a as ih =>
    cases a with
    | value e => rw [Argument.rereadAll, ih, List.map_cons, Argument.reread, Expr.reread]
    | placeholder => rw [Argument.rereadAll, ih, List.map_cons, Argument.reread]

theorem Link.rereadAll_eq (ls : List Link) : Link.rereadAll ls = ls.map Link.reread := by
  induction ls with
  | nil => rfl
  | cons l ls ih =>
    cases l with
    | predicate e => rw [Link.rereadAll, ih, List.map_cons, Link.reread, Expr.reread]
    | call args => rw [Link.rereadAll, ih, List.map_cons, Link.reread, Argument.rereadAll_eq]
    | lookup key => rw [Link.rereadAll, ih, List.map_cons, Link.reread]

/-- Expressions in a list are nested no deeper than each of them. -/
theorem Expr.nestingAll_le {es : List Expr} {n : Nat} :
    Expr.nestingAll es ≤ n ↔ ∀ e ∈ es, e.levels ≤ n := by
  induction es with
  | nil => simp [Expr.nestingAll]
  | cons e es ih => rw [Expr.nestingAll, max_le_iff, ih, List.forall_mem_cons, Expr.levels]

/-- Predicates are nested no deeper than each of them. -/
theorem Expr.nestingPredicates_le {es : List Expr} {n : Nat} :
    Expr.nestingPredicates es ≤ n ↔ ∀ e ∈ es, e.nesting 0 ≤ n := by
  induction es with
  | nil => simp [Expr.nestingPredicates]
  | cons e es ih => rw [Expr.nestingPredicates, max_le_iff, ih, List.forall_mem_cons]

/-- Bindings are nested no deeper than each of their values. -/
theorem Binding.nestingAll_le {bs : List Binding} {n : Nat} :
    Binding.nestingAll bs ≤ n ↔ ∀ b ∈ bs, b.value.levels ≤ n := by
  induction bs with
  | nil => simp [Binding.nestingAll]
  | cons b bs ih =>
    cases b
    rw [Binding.nestingAll, max_le_iff, ih, List.forall_mem_cons, Expr.levels]

/-- Entries are nested no deeper than each of their keys and values. -/
theorem Entry.nestingAll_le {es : List Entry} {n : Nat} :
    Entry.nestingAll es ≤ n ↔ ∀ e ∈ es, e.key.levels ≤ n ∧ e.value.levels ≤ n := by
  induction es with
  | nil => simp [Entry.nestingAll]
  | cons e es ih =>
    cases e
    rw [Entry.nestingAll, max_le_iff, max_le_iff, ih, List.forall_mem_cons, Expr.levels, Expr.levels]

/-- Arguments are nested no deeper than each of them. -/
theorem Argument.nestingAll_le {as : List Argument} {n : Nat} :
    Argument.nestingAll as ≤ n ↔ ∀ a ∈ as, a.levels ≤ n := by
  induction as with
  | nil => simp [Argument.nestingAll]
  | cons a as ih =>
    rw [List.forall_mem_cons, ← ih]
    cases a with
    | value e => rw [Argument.nestingAll, max_le_iff, Argument.levels, Expr.levels]
    | placeholder => simp [Argument.nestingAll, Argument.levels]

/-- Links are nested no deeper than each of them. -/
theorem Link.nestingAll_le {ls : List Link} {n : Nat} :
    Link.nestingAll ls ≤ n ↔ ∀ l ∈ ls, l.levels ≤ n := by
  induction ls with
  | nil => simp [Link.nestingAll]
  | cons l ls ih =>
    rw [List.forall_mem_cons, ← ih]
    cases l <;> rw [Link.nestingAll, max_le_iff, Link.levels]

/-! ### Plain expressions -/

private theorem KindTest.reread_of_plain {test : KindTest} (h : test.Plain) : test.reread = test := by
  unfold KindTest.reread
  split
  · exact absurd h (show ¬ isSimpleName "".toList = true by decide)
  · rfl

private theorem SequenceType.reread_of_plain {type : SequenceType} (h : type.Plain) :
    type.reread = type := by
  cases type with
  | empty => rfl
  | items type occurrence =>
    cases type with
    | node test =>
      rw [SequenceType.reread, ItemType.reread, KindTest.reread_of_plain h]
    | item | atomic _ | map | array | function => rfl

private theorem Param.reread_of_plain {p : Param} (h : ∀ t, p.type = some t → t.Plain) : p.reread =
    p := by
  obtain ⟨name, type⟩ := p
  cases type with
  | none => rfl
  | some t => rw [Param.reread, Option.map_some, SequenceType.reread_of_plain (h t rfl)]

private theorem map_eq_self {α : Type} {f : α → α} {as : List α} (h : ∀ a ∈ as, f a = a) : as.map f =
    as := by
  rw [List.map_congr_left h, List.map_id']

private theorem Argument.map_reread_of_children {as : List Argument}
    (h : ∀ c ∈ as.flatMap Argument.children, c.reread = c) : as.map Argument.reread = as := by
  refine map_eq_self fun a ha => ?_
  cases a with
  | value e =>
    rw [Argument.reread, h e (List.mem_flatMap.mpr ⟨_, ha, List.mem_singleton.mpr rfl⟩)]
  | placeholder => rfl

private theorem LookupKey.reread_of_children {key : LookupKey} (h : ∀ c ∈ key.children, c.reread = c) :
    key.reread = key := by
  cases key with
  | computed e =>
    have he : e.rereadAt .alone = e := h e (List.mem_singleton.mpr rfl)
    rw [LookupKey.reread, he]
  | name _ | index _ | all => rfl

private theorem Link.map_reread_of_children {ls : List Link}
    (h : ∀ c ∈ ls.flatMap Link.children, c.reread = c) : ls.map Link.reread = ls := by
  refine map_eq_self fun l hl => ?_
  have hinside : ∀ c ∈ l.children, c.reread = c := fun c hc => h c (List.mem_flatMap.mpr ⟨l, hl, hc⟩)
  cases l with
  | predicate e => rw [Link.reread, hinside e (List.mem_singleton.mpr rfl)]
  | call args => rw [Link.reread, Argument.map_reread_of_children hinside]
  | lookup key => rw [Link.reread, LookupKey.reread_of_children hinside]

namespace Expr

private theorem map_reread_bindings {bindings : List Binding} {body : Expr}
    (h : ∀ c ∈ bindings.map Binding.value ++ [body], c.reread = c) :
    bindings.map Binding.reread = bindings ∧ body.rereadAt .alone = body := by
  refine ⟨map_eq_self fun b hb => ?_, h body (by simp)⟩
  have hvalue := h b.value (List.mem_append_left _ (List.mem_map_of_mem hb))
  cases b
  rw [Binding.reread, hvalue]

/-- A plain expression comes out behind every front as it is. -/
theorem rereadAt_of_plain {e : Expr} (h : e.Plain) (front : Front) : e.rereadAt front = front.put e := by
  induction h generalizing front with
  | @intro e here inside ih =>
  have hinside : ∀ c ∈ e.children, c.reread = c := fun c hc => ih c hc .alone
  clear inside ih
  cases e with
  | literal value =>
    cases value with
    | integer _ | string _ => rfl
    | decimal _ | double _ => contradiction
  | var _ | contextItem | functionRef _ _ => rfl
  | root | rootPath _ | path _ _ | step _ _ _ => contradiction
  | sequence es | squareArray es =>
    have hmembers : es.map reread = es := map_eq_self hinside
    rw [rereadAt, rereadAll_eq, hmembers]
  | binary _ l r =>
    have hl : l.rereadAt .alone = l := hinside l (by simp [children])
    have hr : r.rereadAt .alone = r := hinside r (by simp [children])
    rw [rereadAt, hl, hr]
  | signed _ e | curlyArray e | castableAs e _ | castAs e _ =>
    have he : e.rereadAt .alone = e := hinside e (by simp [children])
    rw [rereadAt, he]
  | chain base ls =>
    have hbase : base.rereadAt .alone = base := hinside base (by simp [children])
    have hlinks := Link.map_reread_of_children fun c hc => hinside c (List.mem_cons_of_mem _ hc)
    rw [rereadAt, Link.rereadAll_eq, hbase, hlinks]
  | call _ as => rw [rereadAt, Argument.rereadAll_eq, Argument.map_reread_of_children hinside]
  | inlineFunction params result body =>
    have hbody : body.rereadAt .alone = body := hinside body (by simp [children])
    have hparams : params.map Param.reread = params :=
      map_eq_self fun p hp => Param.reread_of_plain (here.1 p hp)
    have hresult : result.map SequenceType.reread = result := by
      cases result with
      | none => rfl
      | some t => rw [Option.map_some, SequenceType.reread_of_plain (here.2 t rfl)]
    rw [rereadAt, hbody, hparams, hresult]
  | forEach bs body | letIn bs body | quantified _ bs body =>
    obtain ⟨hbindings, hbody⟩ := map_reread_bindings hinside
    rw [rereadAt, Binding.rereadAll_eq, hbindings, hbody]
  | ifThenElse c t f =>
    have hc : c.rereadAt .alone = c := hinside c (by simp [children])
    have ht : t.rereadAt .alone = t := hinside t (by simp [children])
    have hf : f.rereadAt .alone = f := hinside f (by simp [children])
    rw [rereadAt, hc, ht, hf]
  | mapOf es =>
    have hentries : es.map Entry.reread = es := by
      refine map_eq_self fun e he => ?_
      have hkey := hinside e.key (List.mem_flatMap.mpr ⟨e, he, by simp [Entry.children]⟩)
      have hvalue := hinside e.value (List.mem_flatMap.mpr ⟨e, he, by simp [Entry.children]⟩)
      cases e
      rw [Entry.reread, hkey, hvalue]
    rw [rereadAt, Entry.rereadAll_eq, hentries]
  | arrowNamed base _ as =>
    have hbase : base.rereadAt .alone = base := hinside base (by simp [children])
    have hargs := Argument.map_reread_of_children fun c hc => hinside c (List.mem_cons_of_mem _ hc)
    rw [rereadAt, hbase, Argument.rereadAll_eq, hargs]
  | arrowDynamic base target as =>
    have hbase : base.rereadAt .alone = base := hinside base (by simp [children])
    have htarget : target.rereadAt .alone = target := hinside target (by simp [children])
    have hargs := Argument.map_reread_of_children fun c hc =>
      hinside c (List.mem_cons_of_mem _ (List.mem_cons_of_mem _ hc))
    rw [rereadAt, hbase, htarget, Argument.rereadAll_eq, hargs]
  | lookup key => rw [rereadAt, LookupKey.reread_of_children hinside]
  | instanceOf e type | treatAs e type =>
    have he : e.rereadAt .alone = e := hinside e (by simp [children])
    rw [rereadAt, he, SequenceType.reread_of_plain here]

/-- A plain expression is read again as it is. -/
theorem reread_of_plain {e : Expr} (h : e.Plain) : e.reread = e := rereadAt_of_plain h .alone

/-! ### Levels of plain expressions -/

/-- No level is added for an expression that is no sequence. -/
theorem levels_of_not_sequence {e : Expr} (h : ¬ e.IsSequence) : e.levels = e.nesting 0 := by
  unfold levels operandNesting
  split
  · exact absurd trivial h
  · rfl

private theorem targetNesting_le (e : Expr) : e.targetNesting (e.nesting 0) ≤ e.nesting 0 := by
  unfold targetNesting
  split
  · exact Nat.zero_le _
  · exact Nat.le_refl _

private theorem baseNesting_of_plain {e : Expr} (h : e.Plain) : e.baseNesting (e.nesting 0) =
    e.levels := by
  have hplain := h.here
  cases e <;> first | rfl | contradiction

private theorem nestingArguments_le {as : List Argument} {n : Nat}
    (h : ∀ c ∈ as.flatMap Argument.children, c.levels ≤ n) : Argument.nestingAll as ≤ n := by
  refine Argument.nestingAll_le.mpr fun a ha => ?_
  cases a with
  | value e => exact h e (List.mem_flatMap.mpr ⟨_, ha, List.mem_singleton.mpr rfl⟩)
  | placeholder => exact Nat.zero_le n

private theorem nestingKey_le {key : LookupKey} {n : Nat} (h : ∀ c ∈ key.children, c.nesting 0 ≤ n) :
    key.nesting ≤ n := by
  cases key with
  | computed e => exact h e (List.mem_singleton.mpr rfl)
  | name _ | index _ | all => exact Nat.zero_le n

private theorem nestingLinks_le {ls : List Link} {n : Nat}
    (h : ∀ c ∈ ls.flatMap Link.children, c.nesting 0 ≤ n ∧ c.levels ≤ n) :
    Link.nestingAll ls ≤ n := by
  refine Link.nestingAll_le.mpr fun l hl => ?_
  have hinside : ∀ c ∈ l.children, c.nesting 0 ≤ n ∧ c.levels ≤ n := fun c hc =>
    h c (List.mem_flatMap.mpr ⟨l, hl, hc⟩)
  cases l with
  | predicate e => exact (hinside e (List.mem_singleton.mpr rfl)).1
  | call as => exact nestingArguments_le fun c hc => (hinside c hc).2
  | lookup key => exact nestingKey_le fun c hc => (hinside c hc).1

/-- An expression is nested at most a level more than what is inside it; a sequence in parentheses is so
too. -/
theorem nesting_le_of_children {e : Expr} {n : Nat} (here : e.IsPlain)
    (inside : ∀ c ∈ e.children, c.Plain)
    (hinside : ∀ c ∈ e.children, c.nesting 0 + 1 ≤ n ∧ c.levels + 1 ≤ n) :
    e.nesting 0 ≤ n + 1 ∧ (e.IsSequence → e.levels ≤ n + 1) := by
  have hargs (as : List Argument) (h : ∀ c ∈ as.flatMap Argument.children, c ∈ e.children) :
      Argument.nestingAll as ≤ n - 1 :=
    nestingArguments_le fun c hc => by
      have hc := hinside c (h c hc)
      omega
  cases e with
  | literal value =>
    cases value with
    | integer _ | string _ => exact ⟨by simp only [nesting, Literal.nesting]; omega, False.elim⟩
    | decimal _ | double _ => contradiction
  | var _ | contextItem | functionRef _ _ => exact ⟨by simp only [nesting]; omega, False.elim⟩
  | root | rootPath _ | path _ _ | step _ _ _ => contradiction
  | sequence es =>
    cases es with
    | nil =>
      refine ⟨?_, fun _ => ?_⟩
      · simp only [nesting, nestingAll]
        omega
      · simp only [levels, operandNesting, nesting, nestingAll]
        omega
    | cons m ms =>
      have hmembers : nestingAll (m :: ms) ≤ n - 1 := nestingAll_le.mpr fun c hc => by
        have hc := hinside c hc
        omega
      have hpos := hinside m (by simp [children])
      refine ⟨?_, fun _ => ?_⟩
      · simp only [nesting]
        omega
      · simp only [levels, operandNesting, nesting]
        omega
  | binary _ l r =>
    have hl := hinside l (by simp [children])
    have hr := hinside r (by simp [children])
    simp only [levels] at hl hr
    refine ⟨?_, False.elim⟩
    simp only [nesting]
    omega
  | signed _ e | curlyArray e | castableAs e _ | castAs e _ | inlineFunction _ _ e | instanceOf e _
  | treatAs e _ =>
    have he := hinside e (by simp [children])
    simp only [levels] at he
    refine ⟨?_, False.elim⟩
    simp only [nesting]
    omega
  | chain base ls =>
    have hbase := hinside base (by simp [children])
    have hplain := baseNesting_of_plain (inside base (by simp [children]))
    have hlinks : Link.nestingAll ls ≤ n - 1 := nestingLinks_le fun c hc => by
      have hc := hinside c (List.mem_cons_of_mem _ hc)
      omega
    refine ⟨?_, False.elim⟩
    simp only [nesting]
    omega
  | call _ as =>
    have has := hargs as fun c hc => hc
    refine ⟨?_, False.elim⟩
    simp only [nesting]
    omega
  | forEach bs body | letIn bs body | quantified _ bs body =>
    have hbody := hinside body (by simp [children])
    have hbindings : Binding.nestingAll bs ≤ n - 1 := Binding.nestingAll_le.mpr fun b hb => by
      have hvalue := hinside b.value (List.mem_append_left _ (List.mem_map_of_mem hb))
      omega
    simp only [levels] at hbody
    refine ⟨?_, False.elim⟩
    simp only [nesting]
    omega
  | ifThenElse c t f =>
    have hc := hinside c (by simp [children])
    have ht := hinside t (by simp [children])
    have hf := hinside f (by simp [children])
    simp only [levels] at hc ht hf
    refine ⟨?_, False.elim⟩
    simp only [nesting]
    omega
  | mapOf es =>
    have hentries : Entry.nestingAll es ≤ n := Entry.nestingAll_le.mpr fun e he => by
      have hkey := hinside e.key (List.mem_flatMap.mpr ⟨e, he, by simp [Entry.children]⟩)
      have hvalue := hinside e.value (List.mem_flatMap.mpr ⟨e, he, by simp [Entry.children]⟩)
      omega
    refine ⟨?_, False.elim⟩
    simp only [nesting]
    omega
  | squareArray es =>
    have hmembers : nestingAll es ≤ n := nestingAll_le.mpr fun c hc => by
      have hc := hinside c hc
      omega
    refine ⟨?_, False.elim⟩
    simp only [nesting]
    omega
  | arrowNamed base _ as =>
    have hbase := hinside base (by simp [children])
    have has := hargs as fun c hc => List.mem_cons_of_mem _ hc
    simp only [levels] at hbase
    refine ⟨?_, False.elim⟩
    simp only [nesting]
    omega
  | arrowDynamic base target as =>
    have hbase := hinside base (by simp [children])
    have htarget := hinside target (by simp [children])
    have hle := targetNesting_le target
    have has := hargs as fun c hc => List.mem_cons_of_mem _ (List.mem_cons_of_mem _ hc)
    simp only [levels] at hbase
    refine ⟨?_, False.elim⟩
    simp only [nesting]
    omega
  | lookup key =>
    have hkey : key.nesting ≤ n := nestingKey_le fun c hc => by
      have hc := hinside c hc
      omega
    refine ⟨?_, False.elim⟩
    simp only [nesting]
    omega

/-- Two levels of nesting are enough for every level of height. -/
theorem nesting_le_of_plain {e : Expr} (h : e.Plain) :
    e.nesting 0 ≤ 2 * e.height + 1 ∧ e.levels ≤ 2 * e.height + 1 := by
  induction h with
  | @intro e here inside ih =>
  obtain ⟨hnesting, hsequence⟩ := nesting_le_of_children here inside fun c hc => by
    have hheight := height_lt_of_mem_children hc
    have hlevels := ih c hc
    show c.nesting 0 + 1 ≤ 2 * e.height ∧ c.levels + 1 ≤ 2 * e.height
    omega
  refine ⟨hnesting, ?_⟩
  by_cases h : e.IsSequence
  · exact hsequence h
  · rw [levels_of_not_sequence h]
    exact hnesting

end Expr

end TreeQuery
