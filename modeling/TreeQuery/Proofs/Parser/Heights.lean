import TreeQuery.Proofs.Expr.Heights
import TreeQuery.Proofs.Parser.Precedence

/-!
# How high the expressions are that are read

The limit of nesting bounds how often operands are read inside each other. If steps to the operands on
the left of operators count nothing, it bounds the height of whatever is read; and in any case every level
of nesting adds two, and every token that is taken pays for two left operands.
-/

namespace TreeQuery.Parser

variable {α β : Type} {k n m d : Nat}

/-! ### Readers of low expressions -/

/-- No expression that is read is higher than `n`, where every token that is taken allows `2 * k` more. -/
def Bounded (k : Nat) (inside : α → List Expr) (n : Nat) (p : Parser α) : Prop :=
  ∀ s, ∀ e ∈ inside (p s).value,
    e.heightWith k + 2 * k * (p s).state.tokens.length ≤ n + 2 * k * s.tokens.length

/-- A reader of one expression. -/
abbrev Low (k n : Nat) (p : Parser Expr) : Prop := Bounded k (fun e => [e]) n p

variable {inside : α → List Expr} {inside' : β → List Expr} {p : Parser α} {f : α → Parser β}

/-- Readers take tokens, so fewer allowances are left behind them. -/
theorem allowance_le (k : Nat) (p : Parser α) (s : ParserState) :
    2 * k * (p s).state.tokens.length ≤ 2 * k * s.tokens.length :=
  Nat.mul_le_mul_left _ (p s).length_le

private theorem Bounded.mono (hp : Bounded k inside n p) (hle : n ≤ m) : Bounded k inside m p :=
  fun s e he => (hp s e he).trans (Nat.add_le_add_right hle _)

private theorem bounded_pure {a : α} (h : ∀ e ∈ inside a, e.heightWith k ≤ n) :
    Bounded k inside n (pure a) := fun _ e he => Nat.add_le_add_right (h e he) _

private theorem low_pure {e : Expr} (h : e.heightWith k ≤ n) : Low k n (pure e) :=
  bounded_pure (List.forall_mem_singleton.mpr h)

/-- What is read first is bounded by what the tokens behind it leave over. -/
theorem Bounded.bind (hp : Bounded k inside n p)
    (hf : ∀ a m, n ≤ m → (∀ e ∈ inside a, e.heightWith k ≤ m) → Bounded k inside' (m + d) (f a)) :
    Bounded k inside' (n + d) (p >>= f) := by
  intro s e he
  have hallowance := allowance_le k p s
  let m := n + (2 * k * s.tokens.length - 2 * k * (p s).state.tokens.length)
  have hfirst : ∀ e ∈ inside (p s).value, e.heightWith k ≤ m := by
    intro e he
    have hle := hp s e he
    omega
  have hrest := hf (p s).value m (Nat.le_add_right _ _) hfirst (p s).state e he
  change e.heightWith k + 2 * k * (f (p s).value (p s).state).state.tokens.length ≤ _
  omega

private theorem Low.bind {p : Parser Expr} {f : Expr → Parser β} (hp : Low k n p)
    (hf : ∀ e m, n ≤ m → e.heightWith k ≤ m → Bounded k inside' (m + d) (f e)) :
    Bounded k inside' (n + d) (p >>= f) :=
  Bounded.bind hp fun e m hle he => hf e m hle (he e (List.mem_singleton.mpr rfl))

/-- What is read first holds no expression. -/
theorem bounded_skip (hf : ∀ a, Bounded k inside' n (f a)) : Bounded k inside' n (p >>= f) := by
  intro s e he
  have hallowance := allowance_le k p s
  have hrest := hf (p s).value (p s).state e he
  change e.heightWith k + 2 * k * (f (p s).value (p s).state).state.tokens.length ≤ _
  omega

private theorem Bounded.map {g : α → β} (hp : Bounded k inside n p)
    (hg : ∀ a m, (∀ e ∈ inside a, e.heightWith k ≤ m) → ∀ e ∈ inside' (g a), e.heightWith k ≤ m + d) :
    Bounded k inside' (n + d) (g <$> p) :=
  hp.bind fun a m _ ha => bounded_pure (hg a m ha)

private theorem Bounded.ite {c : Prop} [Decidable c] {q : Parser α} (hp : Bounded k inside n p)
    (hq : Bounded k inside n q) : Bounded k inside n (if c then p else q) := by
  split
  · exact hp
  · exact hq

private theorem Bounded.nested (hp : Bounded k inside n p) : Bounded k inside n (nested p) :=
  fun s => hp { s with counters := s.counters.enter }

/-- By induction on the tokens that are left, of which every round takes one. -/
theorem Bounded.many (hp : Bounded k inside n p) (kind : TokenKind) :
    Bounded k (fun as => as.flatMap inside) n (many kind p) := by
  intro s
  induction hn : s.tokens.length using Nat.strongRecOn generalizing s with
  | ind l ih =>
    by_cases h : ∃ t ts, s.tokens = t :: ts ∧ t.kind = kind
    · obtain ⟨t, ts, htokens, hkind⟩ := h
      let r := p { s with tokens := ts }
      have hlength : r.state.tokens.length ≤ ts.length := r.length_le
      have hl : ts.length < l := by rw [← hn, htokens, List.length_cons]; exact Nat.lt_succ_self _
      have hround : 2 * k * r.state.tokens.length ≤ 2 * k * l :=
        Nat.mul_le_mul_left _ (hlength.trans hl.le)
      have htaken : 2 * k * ts.length ≤ 2 * k * l := Nat.mul_le_mul_left _ hl.le
      have hlater := allowance_le k (Parser.many kind p) r.state
      obtain ⟨hvalue, hstate⟩ := many_of_cons (p := p) htokens hkind
      intro e he
      rw [hvalue] at he
      change e ∈ (r.value :: (Parser.many kind p r.state).value).flatMap inside at he
      rw [List.flatMap_cons] at he
      rw [hstate]
      change e.heightWith k + 2 * k * (Parser.many kind p r.state).state.tokens.length ≤ n + 2 * k * l
      rcases List.mem_append.mp he with he | he
      · have hfirst : e.heightWith k + 2 * k * r.state.tokens.length ≤ n + 2 * k * ts.length :=
          hp { s with tokens := ts } e he
        omega
      · have hrest := ih _ (Nat.lt_of_le_of_lt hlength hl) r.state rfl e he
        omega
    · rw [(many_of_ne fun t ts htokens hkind => h ⟨t, ts, htokens, hkind⟩).1]
      exact List.forall_mem_nil _

private theorem Bounded.commaList (hp : Bounded k inside n p) :
    Bounded k (fun as => as.flatMap inside) n (commaList p) := by
  refine Bounded.bind (d := 0) hp fun a m hle ha => ?_
  refine Bounded.bind (d := 0) ((hp.many .comma).mono hle) fun as m' hle' has => bounded_pure ?_
  rw [List.flatMap_cons]
  exact List.forall_mem_append.mpr ⟨fun e he => (ha e he).trans hle', has⟩

private theorem Low.many {p : Parser Expr} (hp : Low k n p) (kind : TokenKind) :
    Bounded k id n (many kind p) := by
  intro s e he
  apply Bounded.many hp kind s e
  exact List.mem_flatMap.mpr ⟨e, he, List.mem_singleton.mpr rfl⟩

private theorem Low.commaList {p : Parser Expr} (hp : Low k n p) : Bounded k id n (commaList p) := by
  intro s e he
  apply Bounded.commaList hp s e
  exact List.mem_flatMap.mpr ⟨e, he, List.mem_singleton.mpr rfl⟩

/-! ### Operands and what holds them -/

private theorem low_integerLiteral (t : Token) : Low k n (integerLiteral t) := by
  unfold integerLiteral
  split
  · exact low_pure (Expr.heightWith_of_childless rfl)
  · exact low_pure (Expr.heightWith_of_childless rfl)
  · exact bounded_skip fun _ => low_pure (Expr.heightWith_of_childless rfl)

private theorem low_decimalLiteral (t : Token) : Low k n (decimalLiteral t) := by
  unfold decimalLiteral
  split
  · exact low_pure (Expr.heightWith_of_childless rfl)
  · exact bounded_skip fun _ => low_pure (Expr.heightWith_of_childless rfl)

private theorem low_doubleLiteral (t : Token) : Low k n (doubleLiteral t) := by
  unfold doubleLiteral
  split
  · exact low_pure (Expr.heightWith_of_childless rfl)
  · exact bounded_skip fun _ => low_pure (Expr.heightWith_of_childless rfl)

section

variable {operand : OperandParser} (h : ∀ least, Low k n (operand least))

include h

private theorem low_commaExpr : Low k (n + 1) (commaExpr operand) := by
  refine Low.bind (d := 1) (h _) fun first m hle hfirst => bounded_skip fun _ => Bounded.ite ?_ ?_
  · refine Bounded.bind (d := 1) (Low.many ((h _).mono hle) .comma) fun es m' hle' hes => low_pure ?_
    exact Expr.heightWith_ofMembers (List.forall_mem_cons.mpr ⟨hfirst.trans hle', hes⟩)
  · exact low_pure (Nat.le_succ_of_le hfirst)

private theorem bounded_predicates : Bounded k id (n + 1) (predicates operand) := by
  refine Low.many ?_ .leftBracket
  exact Low.bind (d := 0) (low_commaExpr h) fun e m _ he => bounded_skip fun _ => low_pure he

private theorem low_group : Low k (n + 1) (group operand) := by
  have hclose {m : Nat} (e : Expr) (he : e.heightWith k ≤ m) : Low k m (do
      let _ ← expect .rightParen "')'"
      return e) := bounded_skip fun _ => low_pure he
  refine bounded_skip fun list => bounded_skip fun _ => bounded_skip fun _ => Bounded.ite ?_ ?_
  · exact low_pure (Expr.heightWith_of_childless rfl)
  · refine Bounded.ite ?_ ?_
    · have hlist : Low k (n + 1) (Expr.ofMembers <$> commaList (single operand)) :=
        Bounded.map (h .comma).commaList fun es m hes =>
          List.forall_mem_singleton.mpr (Expr.heightWith_ofMembers hes)
      exact Low.bind (d := 0) hlist fun e m _ he => hclose e he
    · exact Low.bind (d := 1) (h _) fun e m _ he => hclose e (Nat.le_succ_of_le he)

private theorem bounded_argument : Bounded k Argument.children n (argument operand) := by
  refine bounded_skip fun _ => bounded_skip fun _ => Bounded.ite ?_ ?_
  · exact bounded_skip fun _ => bounded_pure (List.forall_mem_nil _)
  · exact Low.bind (d := 0) (h _) fun e m _ he => bounded_pure (List.forall_mem_singleton.mpr he)

private theorem bounded_arguments :
    Bounded k (fun args => args.flatMap Argument.children) n (arguments operand) := by
  refine bounded_skip fun _ => Bounded.ite (bounded_pure (List.forall_mem_nil _)) ?_
  exact Bounded.bind (d := 0) (bounded_argument h).commaList fun args m _ hargs =>
    bounded_skip fun _ => bounded_pure hargs

private theorem bounded_lookupKey : Bounded k LookupKey.children (n + 1) (lookupKey operand) := by
  have hnone {key : LookupKey} (hkey : key.children = []) :
      Bounded k LookupKey.children (n + 1) (pure key) := by
    refine bounded_pure ?_
    rw [hkey]
    exact List.forall_mem_nil _
  refine bounded_skip fun token => ?_
  split
  · exact bounded_skip fun _ => hnone rfl
  · refine bounded_skip fun _ => ?_
    split
    · exact hnone rfl
    · exact bounded_skip fun _ => hnone rfl
  · exact Low.bind (d := 0) (low_group h) fun e m _ he =>
      bounded_pure (List.forall_mem_singleton.mpr he)
  · exact bounded_skip fun _ => hnone rfl
  · exact bounded_skip fun _ => hnone rfl

private theorem low_step (levels : Nat) (axis : Axis) : Low k (n + 2) (step operand levels axis) :=
  bounded_skip fun _ => Bounded.bind (d := 1) (bounded_predicates h) fun _ _ _ hes =>
    low_pure (Expr.heightWith_of_children rfl hes)

private theorem bounded_binding (word : Parser Unit) :
    Bounded k (fun b => [b.value]) n (binding operand word) :=
  bounded_skip fun _ => bounded_skip fun _ => bounded_skip fun _ =>
    Low.bind (d := 0) (h _) fun _ _ _ he => bounded_pure (List.forall_mem_singleton.mpr he)

private theorem bounded_bindings (word : Parser Unit) (last : String) :
    Bounded k (fun r => r.1.map Binding.value ++ [r.2]) n (bindings operand word last) := by
  refine bounded_skip fun _ => ?_
  refine Bounded.bind (d := 0) (bounded_binding h word).commaList fun bs m hle hbs => ?_
  refine bounded_skip fun _ => Low.bind (d := 0) ((h _).mono hle) fun e m' hle' he => bounded_pure ?_
  refine List.forall_mem_append.mpr ⟨fun c hc => ?_, List.forall_mem_singleton.mpr he⟩
  rw [List.map_eq_flatMap] at hc
  exact (hbs c hc).trans hle'

private theorem low_choice : Low k (n + 2) (choice operand) := by
  refine bounded_skip fun _ => bounded_skip fun _ => ?_
  refine Low.bind (d := 1) (low_commaExpr h) fun condition m hle hcondition => ?_
  refine bounded_skip fun _ => bounded_skip fun _ => ?_
  refine Low.bind (d := 1) ((h _).mono (by omega)) fun whenTrue m' hle' htrue => ?_
  refine bounded_skip fun _ => Low.bind (d := 1) ((h _).mono (by omega)) fun whenFalse m'' hle'' hfalse => ?_
  refine low_pure (Expr.heightWith_of_children rfl ?_)
  simp only [Expr.children, List.forall_mem_cons]
  exact ⟨by omega, by omega, hfalse, List.forall_mem_nil _⟩

private theorem low_block : Low k (n + 1) (block operand) := by
  have hclose {m : Nat} (e : Expr) (he : e.heightWith k ≤ m) : Low k m (do
      let _ ← expect .rightBrace "'\x7d'"
      return e) := bounded_skip fun _ => low_pure he
  refine bounded_skip fun _ => ?_
  split
  · refine Low.bind (d := 0) ?_ fun e m _ he => hclose e he
    exact low_pure (Expr.heightWith_of_childless rfl)
  · exact Low.bind (d := 0) (low_commaExpr h) fun e m _ he => hclose e he

private theorem low_inlineFunction (levels : Nat) : Low k (n + 2) (inlineFunction operand levels) := by
  have hbody (params : List Param) : Low k (n + 2) (do
      let result ← typeBehindAs levels
      let _ ← expect .leftBrace "'\x7b'"
      return Expr.inlineFunction params result (← block operand)) :=
    bounded_skip fun result => bounded_skip fun _ => Low.bind (d := 1) (low_block h) fun e m _ he =>
      low_pure (Expr.heightWith_of_children rfl (List.forall_mem_singleton.mpr he))
  refine bounded_skip fun _ => bounded_skip fun _ => bounded_skip fun _ => ?_
  split
  · exact bounded_skip hbody
  · exact bounded_skip fun _ => bounded_skip fun _ => bounded_skip hbody

private theorem bounded_entry : Bounded k Entry.children n (entry operand) := by
  refine Low.bind (d := 0) (h _) fun key m hle hkey => bounded_skip fun _ => ?_
  refine Low.bind (d := 0) ((h _).mono hle) fun value m' hle' hvalue => bounded_pure ?_
  exact List.forall_mem_cons.mpr ⟨hkey.trans hle', List.forall_mem_singleton.mpr hvalue⟩

private theorem low_mapConstructor : Low k (n + 1) (mapConstructor operand) := by
  refine bounded_skip fun _ => bounded_skip fun _ => bounded_skip fun _ => Bounded.ite ?_ ?_
  · exact low_pure (Expr.heightWith_of_childless rfl)
  · exact Bounded.bind (d := 1) (bounded_entry h).commaList fun es m _ hes => bounded_skip fun _ =>
      low_pure (Expr.heightWith_of_children rfl hes)

private theorem low_squareArray : Low k (n + 1) (squareArray operand) := by
  refine bounded_skip fun _ => bounded_skip fun _ => Bounded.ite ?_ ?_
  · exact low_pure (Expr.heightWith_of_childless rfl)
  · exact Bounded.bind (d := 1) (Low.commaList (h _)) fun es m _ hes => bounded_skip fun _ =>
      low_pure (Expr.heightWith_of_children rfl hes)

private theorem low_curlyArray : Low k (n + 2) (curlyArray operand) :=
  bounded_skip fun _ => bounded_skip fun _ => Low.bind (d := 1) (low_block h) fun _ _ _ he =>
    low_pure (Expr.heightWith_of_children rfl (List.forall_mem_singleton.mpr he))

private theorem low_axisStep (levels : Nat) : Low k (n + 2) (axisStep operand levels) := by
  refine bounded_skip fun token => bounded_skip fun _ => ?_
  split
  · exact low_step h levels _
  · exact bounded_skip fun _ => low_step h levels _

private theorem low_namedOperand : Low k (n + 2) (namedOperand operand) := by
  refine bounded_skip fun start => bounded_skip fun text => bounded_skip fun _ => Bounded.ite ?_ ?_
  · refine bounded_skip fun name => (Bounded.bind (d := 1) (bounded_arguments h) ?_).mono (Nat.le_succ _)
    exact fun args m _ hargs => low_pure (Expr.heightWith_of_children rfl hargs)
  · refine bounded_skip fun _ => Bounded.ite ?_ ?_
    · exact bounded_skip fun _ => bounded_skip fun _ => low_pure (Expr.heightWith_of_childless rfl)
    · exact bounded_skip fun test => Bounded.bind (d := 1) (bounded_predicates h) fun _ _ _ hes =>
        low_pure (Expr.heightWith_of_children rfl hes)

private theorem low_wordOperand (levels : Nat) : Low k (n + 2) (wordOperand operand levels) := by
  have hbindings {form : List Binding → Expr → Expr} (hleft : ∀ bs e, (form bs e).leftOperands = [])
      (hchildren : ∀ bs e, (form bs e).children = bs.map Binding.value ++ [e]) (word : Parser Unit)
      (last : String) :
      Low k (n + 2) (bindings operand word last >>= fun r => pure (form r.1 r.2)) := by
    refine (Bounded.bind (d := 1) (bounded_bindings h word last) fun r m _ hr => ?_).mono (Nat.le_succ _)
    refine low_pure (Expr.heightWith_of_children (hleft _ _) ?_)
    rw [hchildren]
    exact hr
  refine bounded_skip fun token => bounded_skip fun next => ?_
  split
  · exact hbindings (fun _ _ => rfl) (fun _ _ => rfl) _ _
  · exact hbindings (fun _ _ => rfl) (fun _ _ => rfl) _ _
  · exact hbindings (fun _ _ => rfl) (fun _ _ => rfl) _ _
  · exact hbindings (fun _ _ => rfl) (fun _ _ => rfl) _ _
  · exact low_choice h
  · exact low_inlineFunction h levels
  · exact (low_mapConstructor h).mono (Nat.le_succ _)
  · exact low_curlyArray h
  · exact low_axisStep h levels
  · exact bounded_skip fun _ => Bounded.ite (low_step h levels _) (low_namedOperand h)

private theorem low_primary (hk : k ≤ 1) (levels : Nat) : Low k (n + 2) (primary operand levels) := by
  have hchildless {e : Expr} (he : e.children = []) : Low k (n + 2) (pure e) :=
    low_pure (Expr.heightWith_of_childless he)
  have hsigned (sign : Sign) : Low k (n + 2) (do return .signed sign (← operand .unary)) := by
    refine Bounded.mono (n := n + 1) ?_ (Nat.le_succ _)
    exact Low.bind (d := 1) (h _) fun _ _ _ he =>
      low_pure (Expr.heightWith_of_children rfl (List.forall_mem_singleton.mpr he))
  refine bounded_skip fun token => ?_
  split
  · exact bounded_skip fun _ => low_integerLiteral _
  · exact bounded_skip fun _ => low_decimalLiteral _
  · exact bounded_skip fun _ => low_doubleLiteral _
  · exact bounded_skip fun _ => hchildless rfl
  · exact bounded_skip fun _ => bounded_skip fun _ => hchildless rfl
  · exact (low_group h).mono (Nat.le_succ _)
  · exact (low_squareArray h).mono (Nat.le_succ _)
  · exact bounded_skip fun _ => hchildless rfl
  · exact bounded_skip fun _ => Bounded.bind (d := 1) (bounded_predicates h) fun _ _ _ hes =>
      low_pure (Expr.heightWith_of_children rfl hes)
  · exact bounded_skip fun _ => low_step h levels _
  · refine bounded_skip fun _ => bounded_skip fun _ => Bounded.ite ?_ (hchildless rfl)
    refine Bounded.mono (n := n + 1) ?_ (Nat.le_succ _)
    exact Low.bind (d := 1) (h _) fun _ _ _ he =>
      low_pure (Expr.heightWith_of_children rfl (List.forall_mem_singleton.mpr he))
  · refine bounded_skip fun _ => Low.bind (d := 2) (h _) fun e m _ he => low_pure ?_
    -- the step that `//` stands for is a left operand of no height
    refine Expr.heightWith_of_children rfl (List.forall_mem_singleton.mpr (Expr.heightWith_le ?_ ?_))
    · refine List.forall_mem_singleton.mpr ?_
      have hstep : Expr.descendantOrSelf.heightWith k ≤ 0 := Expr.heightWith_of_childless rfl
      omega
    · exact List.forall_mem_singleton.mpr (Nat.succ_le_succ he)
  · exact bounded_skip fun _ => hsigned .minus
  · exact bounded_skip fun _ => hsigned .plus
  · exact bounded_skip fun _ => Bounded.bind (d := 1) (bounded_lookupKey h) fun key m _ hkey =>
      low_pure (Expr.heightWith_of_children rfl hkey)
  · exact low_step h levels _
  · exact low_wordOperand h levels
  · refine bounded_skip fun _ => ?_
    split
    · exact bounded_skip fun _ => hchildless rfl
    · exact hchildless rfl

end

/-! ### Operators -/

section

variable {operand : OperandParser} (h : ∀ least, Low k n (operand least)) {left : Expr}
  (hle : n + 2 ≤ m) (hleft : left.heightWith k + k ≤ m)

include hleft

private theorem bounded_typeOperator (levels : Nat) (word : String) :
    Bounded k Option.toList m (typeOperator levels word left) := by
  have hform {e : Expr} (hlefts : e.leftOperands = [left]) (hinner : e.innerOperands = []) :
      Bounded k Option.toList m (pure (some e)) := by
    refine bounded_pure (List.forall_mem_singleton.mpr (Expr.heightWith_le ?_ ?_))
    · rw [hlefts]
      exact List.forall_mem_singleton.mpr hleft
    · rw [hinner]
      exact List.forall_mem_nil _
  unfold typeOperator
  split
  · exact bounded_skip fun _ => bounded_skip fun _ => hform rfl rfl
  · exact bounded_skip fun _ => bounded_skip fun _ => hform rfl rfl
  · exact bounded_skip fun _ => bounded_skip fun _ => hform rfl rfl
  · exact bounded_skip fun _ => bounded_skip fun _ => hform rfl rfl
  · exact bounded_pure (List.forall_mem_nil _)

include h hle

private theorem low_arrowCall : Low k m (arrowCall operand left) := by
  have hargs :
      let args : Parser (List Argument) := do
        if ← expect .leftParen "'('" then arguments operand else return []
      Bounded k (fun args => args.flatMap Argument.children) n args :=
    bounded_skip fun _ => Bounded.ite (bounded_arguments h) (bounded_pure (List.forall_mem_nil _))
  have hdynamic {l : Nat} (hl : n + 1 ≤ l) (target : Expr) (htarget : target.heightWith k ≤ l)
      (hbase : left.heightWith k + k ≤ l + 1) :
      let args : Parser (List Argument) := do
        if ← expect .leftParen "'('" then arguments operand else return []
      Low k (l + 1) (do return .arrowDynamic left target (← args)) := by
    refine Bounded.bind (d := 1) (hargs.mono (Nat.le_of_succ_le hl)) fun args l' hle' hargs => ?_
    refine low_pure (Expr.heightWith_le (List.forall_mem_singleton.mpr (by omega)) ?_)
    exact List.forall_mem_cons.mpr ⟨by omega, fun c hc => Nat.succ_le_succ (hargs c hc)⟩
  obtain ⟨m, rfl⟩ : ∃ l, m = l + 1 := ⟨m - 1, by omega⟩
  refine bounded_skip fun token => ?_
  dsimp only
  split
  · refine bounded_skip fun name => ?_
    refine Bounded.bind (d := 1) (hargs.mono (by omega)) fun args m' hle' hargs => ?_
    refine low_pure (Expr.heightWith_le (List.forall_mem_singleton.mpr (by omega)) ?_)
    exact fun c hc => Nat.succ_le_succ (hargs c hc)
  · refine bounded_skip fun _ => bounded_skip fun name => ?_
    have htarget : (Expr.var name).heightWith k ≤ m := Expr.heightWith_of_childless rfl
    exact hdynamic (by omega) _ htarget hleft
  · exact Low.bind (d := 1) ((low_group h).mono (by omega)) fun target m' hle' htarget =>
      hdynamic (by omega) target htarget (by omega)
  · exact bounded_skip fun _ => low_pure (by omega)

end

section

variable {operand : OperandParser} (h : ∀ least, Low k n (operand least)) {left : Expr}
  (hle : n + 2 ≤ m) (hleft : left.heightWith k ≤ m)

include h hle hleft

/-- Behind an operator there are at most two steps more to what stands on its left, for which the token
of the operator pays. -/
theorem low_operatorRest (levels : Nat) (t : Token) (precedence : Precedence) :
    Low k (m + 2 * k) (operatorRest operand levels t left precedence) := by
  obtain ⟨m, rfl⟩ : ∃ l, m = l + 1 := ⟨m - 1, by omega⟩
  have hlink {l : Link} {m' : Nat} (hm : m ≤ m') (hl : ∀ c ∈ l.children, c.heightWith k ≤ m') :
      Low k (m' + (1 + 2 * k)) (pure (left.link l)) := by
    refine low_pure (Expr.heightWith_link (by omega) fun c hc => ?_)
    have hinside := hl c hc
    omega
  have hoperand : Low k m (operand precedence) := (h _).mono (by omega)
  rw [Nat.add_assoc]
  unfold operatorRest
  split
  · refine Low.bind (d := 1 + 2 * k) hoperand fun right m' hle' hright => low_pure ?_
    exact Expr.heightWith_le (List.forall_mem_singleton.mpr (by omega))
      (List.forall_mem_singleton.mpr (by omega))
  · split
    · refine Low.bind (d := 1 + 2 * k) hoperand fun right m' hle' hright => low_pure ?_
      exact Expr.heightWith_le (List.forall_mem_singleton.mpr (by omega))
        (List.forall_mem_singleton.mpr (by omega))
    · refine Low.bind (d := 1 + 2 * k) hoperand fun right m' hle' hright => low_pure ?_
      have hstep : Expr.descendantOrSelf.heightWith k ≤ 0 := Expr.heightWith_of_childless rfl
      have hpath : (Expr.path left .descendantOrSelf).heightWith k ≤ m' + 1 + k :=
        Expr.heightWith_le (List.forall_mem_singleton.mpr (by omega))
          (List.forall_mem_singleton.mpr (by omega))
      exact Expr.heightWith_le (List.forall_mem_singleton.mpr (by omega))
        (List.forall_mem_singleton.mpr (by omega))
    · exact low_arrowCall h (by omega) (by omega)
    · refine Low.bind ((low_commaExpr h).mono (by omega)) fun e m' hle' he => bounded_skip fun _ => ?_
      exact hlink hle' (List.forall_mem_singleton.mpr he)
    · exact Bounded.bind ((bounded_arguments h).mono (by omega)) fun args m' hle' hargs => hlink hle' hargs
    · exact Bounded.bind ((bounded_lookupKey h).mono (by omega)) fun key m' hle' hkey => hlink hle' hkey
    · have hfound : Bounded k Option.toList (m + (1 + 2 * k)) (typeOperator levels t.text left) :=
        bounded_typeOperator (by omega) levels t.text
      refine Bounded.bind (n := m + (1 + 2 * k)) (d := 0) hfound fun found m' hle' hfound => ?_
      split
      · exact low_pure (hfound _ (List.mem_singleton.mpr rfl))
      · exact bounded_skip fun _ => low_pure (by omega)

end

/-- By induction on the tokens that are left, of which every operator takes one. -/
theorem low_climb {operand : OperandParser} (h : ∀ least, Low k n (operand least)) (levels : Nat)
    (least : Precedence) {left : Expr} (hle : n + 2 ≤ m) (hleft : left.heightWith k ≤ m)
    (s : ParserState) :
    (climb operand levels least left s).value.heightWith k +
        2 * k * (climb operand levels least left s).state.tokens.length ≤
      m + 2 * k * s.tokens.length := by
  induction hn : s.tokens.length using Nat.strongRecOn generalizing s left m with
  | ind l ih =>
    by_cases hmore : ∃ t ts precedence, s.tokens = t :: ts ∧
        t.infixPrecedence? = some precedence ∧ least.rank < precedence.rank
    · obtain ⟨t, ts, precedence, htokens, ht, hlt⟩ := hmore
      let r := operatorRest operand levels t left precedence { s with tokens := ts }
      have hlength : r.state.tokens.length ≤ ts.length := r.length_le
      have hl : l = ts.length + 1 := by rw [← hn, htokens, List.length_cons]
      have htoken : 2 * k * l = 2 * k * ts.length + 2 * k := by rw [hl, Nat.mul_succ]
      have hallowance : 2 * k * r.state.tokens.length ≤ 2 * k * ts.length :=
        Nat.mul_le_mul_left _ hlength
      have hr : r.value.heightWith k + 2 * k * r.state.tokens.length ≤ m + 2 * k + 2 * k * ts.length :=
        low_operatorRest h hle hleft levels t precedence { s with tokens := ts } r.value
          (List.mem_singleton.mpr rfl)
      -- what the tokens of the operator and its right side leave over
      let m' := m + (2 * k * l - 2 * k * r.state.tokens.length)
      have hm : n + 2 ≤ m' := Nat.le_add_right_of_le hle
      have hvalue : r.value.heightWith k ≤ m' := by omega
      have hrest := ih r.state.tokens.length (by omega) hm hvalue r.state rfl
      rw [(climb_of_lt levels htokens ht hlt).1, (climb_of_lt levels htokens ht hlt).2]
      refine hrest.trans ?_
      omega
    · have hstop : ∀ t ts precedence, s.tokens = t :: ts →
          t.infixPrecedence? = some precedence → precedence.rank ≤ least.rank := by
        intro t ts precedence htokens ht
        by_contra hlt
        exact hmore ⟨t, ts, precedence, htokens, ht, Nat.lt_of_not_le hlt⟩
      rw [(climb_of_le levels hstop).1, (climb_of_le levels hstop).2, hn]
      exact Nat.add_le_add_right hleft _

/-! ### Whole expressions -/

/-- Every level of nesting adds two steps, by induction on the levels that are left. -/
theorem low_operandAt (hk : k ≤ 1) (levels : Nat) (least : Precedence) :
    Low k (2 * levels) (operandAt levels least) := by
  induction levels generalizing least with
  | zero => exact bounded_skip fun _ => low_pure (Expr.heightWith_of_childless rfl)
  | succ levels ih =>
    refine Bounded.nested (Low.bind (d := 0) (low_primary ih hk levels) fun left m hle hleft => ?_)
    exact fun s => List.forall_mem_singleton.mpr (low_climb ih levels least hle hleft s)

private theorem low_program (hk : k ≤ 1) : Low k (2 * maxNesting + 1) program := by
  refine bounded_skip fun _ => Bounded.ite ?_ ?_
  · exact bounded_skip fun _ => low_pure (Expr.heightWith_of_childless rfl)
  · refine Low.bind (d := 0) (low_commaExpr (low_operandAt hk maxNesting)) fun e m _ he => ?_
    refine bounded_skip fun _ => ?_
    split
    · exact bounded_skip fun _ => low_pure he
    · exact low_pure he

end TreeQuery.Parser

namespace TreeQuery.Expr

open TreeQuery.Parser

private theorem heightWith_read_le {k : Nat} (hk : k ≤ 1) (text : String) :
    (read text).1.heightWith k ≤ 2 * maxNesting + 1 + 2 * k * (tokenize text.toList).length := by
  let s : ParserState := { source := text.toList, tokens := tokenize text.toList, errors := [] }
  have hread : (read text).1.heightWith k + 2 * k * (program s).state.tokens.length ≤
      2 * maxNesting + 1 + 2 * k * s.tokens.length :=
    low_program hk s (read text).1 (List.mem_singleton.mpr rfl)
  exact (Nat.le_add_right _ _).trans hread

/-- However long a text is, the steps in what is read from it are no more than twice the limit of nesting
and one, if those to the operands on the left of operators are not counted. If they are, two more are
allowed for every token. -/
theorem height_read_le (text : String) :
    (read text).1.nestedHeight ≤ 2 * maxNesting + 1 ∧
      (read text).1.height ≤ 2 * maxNesting + 1 + 2 * (tokenize text.toList).length := by
  constructor
  · have hnested := heightWith_read_le (Nat.zero_le 1) text
    rwa [Nat.mul_zero, Nat.zero_mul, Nat.add_zero] at hnested
  · have hheight := heightWith_read_le (Nat.le_refl 1) text
    rwa [heightWith_one, Nat.mul_one] at hheight

/-! ### Sums -/

/-- A sum of ones, which has as many operators. -/
def sumOfOnes : Nat → Expr
  | 0 => .literal (.integer 1)
  | count + 1 => .binary (.arithmetic .add) (sumOfOnes count) (.literal (.integer 1))

/-- Ones to be added to what is in front of them. -/
def plusOnes : Nat → List Char
  | 0 => []
  | count + 1 => ' ' :: '+' :: ' ' :: '1' :: plusOnes count

private theorem le_height_sumOfOnes (count : Nat) : count ≤ (sumOfOnes count).height := by
  induction count with
  | zero => exact Nat.zero_le _
  | succ count ih =>
    have hlt : (sumOfOnes count).height < (sumOfOnes (count + 1)).height :=
      height_lt_of_mem_children List.mem_cons_self
    omega

private theorem nameEnds_plusOnes (count : Nat) : NameEnds (plusOnes count) := by
  cases count with
  | zero => exact ⟨breaks_nil, nofun⟩
  | succ count => exact nameEnds_blank _

/-- Another addition does not belong to the right side of the one in front of it. -/
theorem stops_plusOnes (count : Nat) : Stops .additive (plusOnes count) := by
  cases count with
  | zero => exact stops_of_kind (by decide)
  | succ count => exact (stops_symbol (.arithmetic .add) (Nat.le_refl _) ('1' :: plusOnes count)).blank

private theorem reads_one (levels : Nat) {least : Precedence} {rest : List Char} (hrest : NameEnds rest)
    (hstops : Stops least rest) :
    Reads True (operandAt (levels + 1) least) ('1' :: rest) (.literal (.integer 1)) rest := by
  have hdigit : Reads True (primary (operandAt levels) levels) (['1'] ++ rest) (.literal (.integer 1)) rest :=
    reads_digits (by decide) (by decide) (by decide) hrest.breaks
  exact (reads_operandAt hdigit (reads_climb_stop hstops)).congr (and_self_iff)

/-- Every addition is climbed on from those in front of it, in the same level of nesting. -/
theorem reads_plusOnes (levels count sum : Nat) :
    Reads True (climb (operandAt (levels + 1)) (levels + 1) .comma (sumOfOnes sum)) (plusOnes count)
      (sumOfOnes (sum + count)) [] := by
  induction count generalizing sum with
  | zero => exact reads_climb_stop (stops_of_kind (by decide))
  | succ count ih =>
    let op : BinaryOp := .arithmetic .add
    have hlater := ih (sum + 1)
    rw [Nat.add_assoc, Nat.add_comm 1] at hlater
    have hright : Reads True (operandAt (levels + 1) op.precedence) ('1' :: plusOnes count)
        (.literal (.integer 1)) (plusOnes count) :=
      reads_one levels (nameEnds_plusOnes count) (stops_plusOnes count)
    have hoperator : Reads True (climb (operandAt (levels + 1)) (levels + 1) .comma (sumOfOnes sum))
        (op.symbol.toList ++ ' ' :: '1' :: plusOnes count) (sumOfOnes (sum + (count + 1))) [] :=
      (reads_climb_binary (persists_operandAt _) (starts_symbol op _)
        (fun _ => binaryOperator?_of_token) op.precedence_rank.1 hright.blank hlater).congr
        and_self_iff
    have hsymbol : op.symbol.toList = ['+'] := by decide
    rw [hsymbol] at hoperator
    exact hoperator.blank

/-- A sum of ones is read without errors, however long it is. -/
theorem read_plusOnes (count : Nat) :
    read (String.ofList ('1' :: plusOnes count)) = (sumOfOnes count, []) := by
  have hends := (nameEnds_plusOnes count).breaks
  have hstarts : Starts (['1'] ++ plusOnes count) .integer (String.ofList ['1']) (plusOnes count) :=
    starts_digits (by decide) (List.forall_mem_nil _) hends
  have hone : Reads True (primary (operandAt 127) 127) (['1'] ++ plusOnes count) (sumOfOnes 0)
      (plusOnes count) := reads_digits (by decide) (by decide) (by decide) hends
  have hsum := reads_plusOnes 126 count 0
  rw [Nat.zero_add] at hsum
  exact read_of_single (hstarts.kind.trans_ne (by decide)) ((reads_operandAt hone hsum).congr (and_self_iff))

/-- There is no bound on the height of what is read: what has been read becomes the left operand of the
next operator without nesting anything. -/
theorem height_read_plusOnes :
    let text := String.ofList ('1' :: plusOnes 1025)
    (read text).2 = [] ∧ ¬ (read text).1.height ≤ 8 * maxNesting := by
  intro text
  have hread : read text = (sumOfOnes 1025, []) := read_plusOnes 1025
  have hheight := le_height_sumOfOnes 1025
  rw [hread]
  refine ⟨rfl, Nat.not_le_of_lt (Nat.lt_of_lt_of_le ?_ hheight)⟩
  decide

end TreeQuery.Expr
