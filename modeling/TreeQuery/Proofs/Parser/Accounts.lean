import TreeQuery.Proofs.Parser.Progress
import TreeQuery.Proofs.Token.Nested

/-!
# What is owed at a place of an expression

What is left to be read has to close the brackets in front of it, and it may go deeper so many times:
three times for every token, and a few times more for tokens that were taken before. Both are known at
the end of an expression and are carried backwards through its readers. There is a rule for each step of
a reader: it tells what is owed in front of the step from what is owed behind it. Where something is
missed no bracket is owed any more, because the expression is not accepted.
-/

namespace TreeQuery

/-- The next token. -/
def ParserState.next (s : ParserState) : Token := s.tokens.headD (Parser.endToken s)

/-- What is left behind the next token. -/
def ParserState.behind (s : ParserState) : ParserState := { s with tokens := s.tokens.tail }

namespace Parser

/-- What is owed at a place. -/
structure Account where
  /-- Whether a type may start. -/
  inType : Bool
  /-- The brackets that close what is open, the innermost first. -/
  closers : List TokenKind
  /-- How often the parser may go deeper besides what the tokens are good for. -/
  calls : Nat

/-- What is left at a state settles an account in a run that ends like this. -/
structure Settles (final : ParserState) (a : Account) (s : ParserState) : Prop where
  entered : final.counters.entered ≤ s.counters.entered + 3 * s.tokens.length + a.calls
  errors : final.errors = [] → s.errors = []
  nested : final.errors = [] → Lexed s.tokens → Nested a.inType a.closers s.tokens

/-- A reader carries an account backwards: what it leaves settles `b` only if what it starts from
settles `a`. -/
def Carries {α : Type} (p : Parser α) (s : ParserState) (a b : Account) : Prop :=
  ∀ final, Settles final b (p s).state → Settles final a s

/-- Tokens of a kind lead from what is owed in front of them to what is owed behind. -/
structure Leads (kind : TokenKind) (inType : Bool) (closers : List TokenKind) (inType' : Bool)
    (closers' : List TokenKind) : Prop where
  ne_eof : kind ≠ .eof
  nested {t : Token} {ts : List Token} :
    t.kind = kind → Nested inType' closers' ts → Nested inType closers (t :: ts)

variable {α β : Type} {inType inType' : Bool} {closers closers' : List TokenKind} {kind : TokenKind}

/-- Behind a plain token the same brackets are owed. -/
theorem Leads.plain (h : kind.isPlain = true) : Leads kind inType closers false closers where
  ne_eof := by
    rintro rfl
    contradiction
  nested ht hrest := .plain (ht ▸ h) (hrest.inType _)

/-- Behind an opening bracket its counterpart is owed first. -/
theorem Leads.opens {close : TokenKind} (h : kind.closing? = some close) :
    Leads kind inType closers false (close :: closers) where
  ne_eof := by
    rintro rfl
    contradiction
  nested ht hrest := .opens (ht ▸ h) (hrest.inType _)

/-- A type in parentheses. -/
theorem Leads.opensType : Leads .leftParen true closers true (.rightParen :: closers) where
  ne_eof := by decide
  nested ht hrest := by
    refine .opens (by rw [ht]; rfl) ?_
    rwa [ht]

/-- A closing bracket settles the innermost one that is owed. -/
theorem Leads.closes (h : kind.isClosing = true) :
    Leads kind inType (kind :: closers) false closers where
  ne_eof := by
    rintro rfl
    contradiction
  nested ht hrest := ht ▸ .closes hrest

/-- A token that is there is taken. -/
theorem eat_of_eq {s : ParserState} (h : s.next.kind = kind) :
    (eat kind s).value = true ∧ (eat kind s).state = s.behind := by
  change ((if s.next.kind == kind then _ else _ : Parser Bool) s).value = true ∧
    ((if s.next.kind == kind then _ else _ : Parser Bool) s).state = s.behind
  rw [if_pos (beq_iff_eq.mpr h)]
  exact ⟨rfl, rfl⟩

private theorem eat_of_ne {s : ParserState} (h : s.next.kind ≠ kind) :
    (eat kind s).value = false ∧ (eat kind s).state = s := by
  change ((if s.next.kind == kind then _ else _ : Parser Bool) s).value = false ∧
    ((if s.next.kind == kind then _ else _ : Parser Bool) s).state = s
  rw [if_neg (by rwa [beq_iff_eq])]
  exact ⟨rfl, rfl⟩

private theorem expect_bind_eq (expected : String) (f : Bool → Parser α) :
    expect kind expected >>= f =
      eat kind >>= fun found =>
        if found then f true else failed (error expected) >>= fun _ => f false := by
  have hfound : (fun found : Bool => (if found then Pure.pure true else
      failed (error expected) >>= fun _ => Pure.pure false : Parser Bool) >>= f) =
        fun found : Bool =>
          if found then f true else failed (error expected) >>= fun _ => f false := by
    funext found
    cases found <;> rfl
  exact congrArg (eat kind >>= ·) hfound

namespace Carries

variable {p q : Parser α} {f : α → Parser β} {s : ParserState} {a b m : Account} {n k : Nat}

/-! ### Readers put together -/

/-- A value alone reads nothing, so what is owed stays. -/
theorem pure (hle : k ≤ n) (x : α) :
    Carries (pure x) s ⟨inType, closers, n⟩ ⟨false, closers, k⟩ := by
  intro final h
  refine ⟨h.entered.trans (Nat.add_le_add_left hle _), h.errors, fun hfinal hlexed => ?_⟩
  exact (h.nested hfinal hlexed).inType _

/-- Where a type may start. -/
theorem pureType (hle : k ≤ n) (x : α) :
    Carries (Pure.pure x) s ⟨true, closers, n⟩ ⟨true, closers, k⟩ := by
  intro final h
  exact ⟨h.entered.trans (Nat.add_le_add_left hle _), h.errors, h.nested⟩

/-- In two steps the second one tells what the first one has to leave. -/
theorem bind (hp : Carries p s a m) (hf : ∀ x s, Carries (f x) s m b) : Carries (p >>= f) s a b :=
  fun final h => hp final (hf _ _ final h)

/-- What is made of a value makes no difference to what is owed. -/
theorem map {f : α → β} (hp : Carries p s a ⟨false, closers, k⟩) :
    Carries (f <$> p) s a ⟨false, closers, k⟩ :=
  hp.bind fun _ _ => pure (Nat.le_refl _) _

/-- More may be owed than is needed. -/
theorem mono (hp : Carries p s ⟨inType, closers, k⟩ b) (hle : k ≤ n) :
    Carries p s ⟨inType, closers, n⟩ b := by
  intro final h
  obtain ⟨hentered, herrors, hnested⟩ := hp final h
  exact ⟨hentered.trans (Nat.add_le_add_left hle _), herrors, hnested⟩

/-- Each branch is only taken where its condition decides so. -/
theorem ite {c : Prop} [Decidable c] (hp : c → Carries p s a b) (hq : ¬ c → Carries q s a b) :
    Carries (if c then p else q) s a b := by
  split
  · next h => exact hp h
  · next h => exact hq h

/-! ### Looking at tokens -/

/-- Looking at the next token takes nothing. -/
theorem current {f : Token → Parser α} (hf : Carries (f s.next) s a b) :
    Carries (current >>= f) s a b := hf

/-- Neither does looking at the token behind it. -/
theorem following {f : TokenKind → Parser α} (hf : Carries (f s.behind.next.kind) s a b) :
    Carries (following >>= f) s a b := hf

/-- A question about the next token is answered by its kind. -/
theorem isAt_bind {f : Bool → Parser α} (hf : Carries (f (s.next.kind == kind)) s a b) :
    Carries (isAt kind >>= f) s a b := hf

/-- A question about the next word is answered by the token. -/
theorem isAtWord_bind {word : String} {f : Bool → Parser α}
    (hf : Carries (f (s.next.isWord word)) s a b) : Carries (isAtWord word >>= f) s a b := hf

/-- Behind such a question the next token is known in the branch that is taken for it. -/
theorem isAt (hp : s.next.kind = kind → Carries p s a b) (hq : Carries q s a b) :
    Carries (isAt kind >>= fun found => if found then p else q) s a b :=
  ite (fun h => hp (beq_iff_eq.mp h)) fun _ => hq

/-- So is the next word. -/
theorem isAtWord {word : String} (hp : s.next.isWord word = true → Carries p s a b)
    (hq : Carries q s a b) :
    Carries (isAtWord word >>= fun found => if found then p else q) s a b :=
  ite hp fun _ => hq

/-- Whether a list of values follows is not looked into. -/
theorem isAtList {f : Bool → Parser α} (hf : ∀ list, Carries (f list) s a b) :
    Carries (isAtList >>= f) s a b := hf _

/-- In front of a kind test stand its keyword and a parenthesis. -/
theorem isAtKindTest
    (hp : s.next.kind = .name → s.behind.next.kind = .leftParen → Carries p s a b)
    (hq : Carries q s a b) :
    Carries (isAtKindTest >>= fun found => if found then p else q) s a b := by
  refine ite (fun h => ?_) fun _ => hq
  change (s.next.kind == .name && s.behind.next.kind == .leftParen &&
    (KindTest.ofKeyword? s.next.text).isSome) = true at h
  simp only [Bool.and_eq_true, beq_iff_eq] at h
  exact hp h.1.1 h.1.2

/-! ### Missing something -/

/-- Where something is missed, only the counts are owed. -/
theorem of_missed (hmissed : (p s).state.errors ≠ [])
    (hentered : (p s).state.counters.entered + 3 * (p s).state.tokens.length + b.calls ≤
      s.counters.entered + 3 * s.tokens.length + a.calls) : Carries p s a b := by
  intro final h
  have hfinal : final.errors ≠ [] := fun hnil => hmissed (h.errors hnil)
  exact ⟨h.entered.trans hentered, fun hnil => absurd hnil hfinal, fun hnil => absurd hnil hfinal⟩

/-- Where an error is noted, no bracket is owed. -/
theorem errorAt (t : Token) (expected : String) (hle : b.calls ≤ a.calls) :
    Carries (failed (Parser.errorAt t expected)) s a b :=
  of_missed (List.cons_ne_nil _ _) (Nat.add_le_add_left hle _)

/-- What follows an error is read with an error noted. -/
theorem error_bind {f : Unit → Parser α} (expected : String)
    (hf : ∀ s, s.errors ≠ [] → Carries (f ()) s m b) (hle : m.calls ≤ a.calls) :
    Carries (failed (Parser.error expected) >>= f) s a b := by
  intro final h
  have hmissed := errors_error_ne_nil expected s
  refine of_missed (p := failed (Parser.error expected)) hmissed ?_ final (hf _ hmissed final h)
  have hcounts : (failed (Parser.error expected) s).state.counters.entered = s.counters.entered ∧
      (failed (Parser.error expected) s).state.tokens = s.tokens := by
    obtain ⟨e, he⟩ | ⟨-, he⟩ := error_cases expected s <;> rw [he] <;> exact ⟨rfl, rfl⟩
  rw [hcounts.1, hcounts.2]
  exact Nat.add_le_add_left hle _

/-- Where an error is noted at the next token, no bracket is owed. -/
theorem error (expected : String) (hle : b.calls ≤ a.calls) :
    Carries (failed (Parser.error expected)) s a b :=
  error_bind (f := fun _ => Pure.pure ()) (m := b) expected
    (fun _ hs => of_missed hs (Nat.le_refl _)) hle

/-- A value that is given for an error settles whatever is owed. -/
theorem errorAt_pure (t : Token) (expected : String) (x : α) :
    Carries (do failed (Parser.errorAt t expected); return x) s
      ⟨inType, closers, n⟩ ⟨false, closers', n⟩ := by
  have hmissed : Carries (failed (Parser.errorAt t expected)) s ⟨inType, closers, n⟩ ⟨false, closers', n⟩ :=
    errorAt t expected (Nat.le_refl n)
  exact hmissed.bind fun _ _ => pure (Nat.le_refl _) _

/-- So does one that is given for an error at the next token. -/
theorem error_pure (expected : String) (x : α) :
    Carries (do failed (Parser.error expected); return x) s
      ⟨inType, closers, n⟩ ⟨false, closers', n⟩ := by
  have hmissed : Carries (failed (Parser.error expected)) s ⟨inType, closers, n⟩ ⟨false, closers', n⟩ :=
    error expected (Nat.le_refl n)
  exact hmissed.bind fun _ _ => pure (Nat.le_refl _) _

/-! ### Taking tokens -/

/-- Where a token comes next, it is the first one of those that are left. -/
theorem exists_tokens (h : s.next.kind ≠ .eof) : s.tokens = s.next :: s.behind.tokens := by
  obtain ⟨source, tokens, errors, counters⟩ := s
  cases tokens with
  | nil => exact absurd rfl h
  | cons t ts => rfl

/-- By the token that is taken. -/
theorem advance_of (hne : s.next.kind ≠ .eof) (h : ∀ ts, Nested inType' closers' ts →
    Nested inType closers (s.next :: ts)) :
    Carries advance s ⟨inType, closers, n⟩ ⟨inType', closers', n + 3⟩ := by
  intro final hsettles
  obtain ⟨hentered, herrors, hnested⟩ := hsettles
  have htokens := exists_tokens hne
  refine ⟨hentered.trans ?_, herrors, fun hfinal hlexed => ?_⟩
  · rw [htokens, List.length_cons]
    change s.counters.entered + 3 * s.behind.tokens.length + (n + 3) ≤
      s.counters.entered + 3 * (s.behind.tokens.length + 1) + n
    omega
  · rw [htokens] at hlexed ⊢
    exact h _ (hnested hfinal hlexed.tail)

/-- Taking a token pays for three more calls. -/
theorem advance (hkind : s.next.kind = kind) (h : Leads kind inType closers inType' closers') :
    Carries advance s ⟨inType, closers, n⟩ ⟨inType', closers', n + 3⟩ :=
  advance_of (hkind ▸ h.ne_eof) fun _ => h.nested hkind

/-- Behind a word that announces a type. -/
theorem advance_word {word : String} (hword : s.next.isWord word = true)
    (hmem : word ∈ ["of", "as"]) :
    Carries Parser.advance s ⟨inType, closers, n⟩ ⟨true, closers, n + 3⟩ := by
  have hkind : s.next.kind = .name := by
    rw [Token.isWord, Bool.and_eq_true, beq_iff_eq] at hword
    exact hword.1
  have hannounces : s.next.announcesType = true := by
    rw [Token.announcesType, Bool.or_eq_true]
    simp only [List.mem_cons, List.not_mem_nil, or_false] at hmem
    rcases hmem with rfl | rfl
    · exact Or.inl hword
    · exact Or.inr hword
  refine advance_of (by rw [hkind]; decide) fun ts hts => ?_
  exact .plain (by rw [hkind]; rfl) (hannounces ▸ hts)

/-- Behind something that was missed any token may be taken. -/
theorem advance_missed (h : s.errors ≠ []) (hle : b.calls ≤ a.calls) :
    Carries Parser.advance s a b := by
  refine of_missed h (Nat.add_le_add (Nat.add_le_add_left (Nat.mul_le_mul_left 3 ?_) _) hle)
  exact (Parser.advance s).length_le

/-- What follows is read behind the token. -/
theorem advance_bind {f : Token → Parser α} (hp : Carries Parser.advance s a m)
    (hf : Carries (f s.next) s.behind m b) : Carries (Parser.advance >>= f) s a b :=
  fun final h => hp final (hf final h)

/-- Behind a token that is no bracket. -/
theorem advance_plain {f : Token → Parser α} (hkind : s.next.kind = kind)
    (hplain : kind.isPlain = true) (hf : ∀ t s, Carries (f t) s ⟨false, closers, n + 3⟩ b) :
    Carries (Parser.advance >>= f) s ⟨inType, closers, n⟩ b :=
  (advance hkind (.plain hplain)).bind hf

/-- A word with a bracket behind it. -/
theorem advance_opening {f : Token → Token → Parser α} {close : TokenKind}
    (hname : s.next.kind = .name) (hkind : s.behind.next.kind = kind)
    (hclose : kind.closing? = some close)
    (hf : ∀ t u s, Carries (f t u) s ⟨false, close :: closers, n + 6⟩ b) :
    Carries (Parser.advance >>= fun t => Parser.advance >>= f t) s ⟨inType, closers, n⟩ b :=
  advance_bind (advance hname (.plain rfl)) ((advance hkind (.opens hclose)).bind (hf _))

/-- A token in whose place another one is expected. -/
theorem advance_error {f : Token → Parser α} {t : Token} {e : String} {x : α}
    (hf : f s.next = do failed (Parser.errorAt t e); return x) (hle : b.calls ≤ a.calls) :
    Carries (Parser.advance >>= f) s a b := by
  have hstate : ((Parser.advance >>= f) s).state = { s.behind with
      errors := ⟨e, t.text, t.offset⟩ :: s.errors, counters := s.counters.miss } := by
    change (f s.next s.behind).state = _
    rw [hf]
    rfl
  refine of_missed ?_ ?_
  · rw [hstate]
    exact List.cons_ne_nil _ _
  · rw [hstate]
    refine Nat.add_le_add (Nat.add_le_add_left (Nat.mul_le_mul_left 3 ?_) _) hle
    exact (Parser.advance s).length_le

/-- A token that is taken if it is there pays for three calls there; otherwise what is owed stays. -/
theorem eat_bind {f : Bool → Parser α} (h : Leads kind inType closers inType' closers')
    (htaken : ∀ s, Carries (f true) s ⟨inType', closers', n + 3⟩ b)
    (hleft : Carries (f false) s ⟨inType, closers, n⟩ b) :
    Carries (eat kind >>= f) s ⟨inType, closers, n⟩ b := by
  intro final hsettles
  change Settles final b (f (Parser.eat kind s).value (Parser.eat kind s).state).state at hsettles
  by_cases hkind : s.next.kind = kind
  · obtain ⟨hvalue, hstate⟩ := eat_of_eq hkind
    rw [hvalue, hstate] at hsettles
    exact advance hkind h final (htaken _ final hsettles)
  · obtain ⟨hvalue, hstate⟩ := eat_of_ne hkind
    rw [hvalue, hstate] at hsettles
    exact hleft final hsettles

/-- The branches for a token that is there and for one that is not owe what their sides owe. -/
theorem eat (h : Leads kind inType closers inType' closers')
    (hp : ∀ s, Carries p s ⟨inType', closers', n + 3⟩ b)
    (hq : Carries q s ⟨inType, closers, n⟩ b) :
    Carries (Parser.eat kind >>= fun found => if found then p else q) s ⟨inType, closers, n⟩ b :=
  eat_bind h (fun s => ite (fun _ => hp s) fun hne => absurd rfl hne)
    (ite (fun heq => absurd heq Bool.false_ne_true) fun _ => hq)

/-- A token that has to come next. Where it is missed, the reader behind it goes on as it likes. -/
theorem expect_bind {f : Bool → Parser α} (expected : String)
    (h : Leads kind inType closers inType' closers')
    (hp : ∀ s, Carries (f true) s ⟨inType', closers', n + 3⟩ b)
    (hq : ∀ s, s.errors ≠ [] → Carries (f false) s ⟨inType, closers, n⟩ b) :
    Carries (expect kind expected >>= f) s ⟨inType, closers, n⟩ b := by
  rw [expect_bind_eq]
  exact eat h hp (error_bind expected hq (Nat.le_refl _))

/-- A token that must be there is taken, or an error is noted. -/
theorem expect (expected : String) (h : Leads kind inType closers false closers') :
    Carries (expect kind expected) s ⟨inType, closers, n⟩ ⟨false, closers', n⟩ :=
  expect_bind (f := Pure.pure) expected h (fun _ => pure (Nat.le_add_right ..) _)
    fun _ hs => of_missed hs (Nat.le_refl _)

/-- A word that must be there is taken, or an error is noted. -/
theorem expectWord (word : String) :
    Carries (expectWord word) s ⟨inType, closers, n⟩ ⟨false, closers, n⟩ := by
  refine isAtWord (fun hword => ?_) (error _ (Nat.le_refl _))
  rw [Token.isWord, Bool.and_eq_true, beq_iff_eq] at hword
  exact (advance hword.1 (.plain rfl)).bind fun _ _ => pure (Nat.le_add_right ..) _

/-- A word behind which a type has to stand. -/
theorem expectTypeWord {word : String} (hmem : word ∈ ["of", "as"]) :
    Carries (Parser.expectWord word) s ⟨inType, closers, n⟩ ⟨true, closers, n⟩ := by
  refine isAtWord (fun hword => ?_) (error _ (Nat.le_refl _))
  exact (advance_word hword hmem).bind fun _ _ => pureType (Nat.le_add_right ..) _

/-! ### Going deeper -/

/-- One level deeper costs one call. -/
theorem nested (hp : Carries p { s with counters := s.counters.enter } ⟨inType, closers, n⟩ b) :
    Carries (nested p) s ⟨inType, closers, n + 1⟩ b := by
  intro final h
  -- the state behind differs from the one inside in the level only, which is not looked at
  obtain ⟨hentered, herrors, hnested⟩ := h
  have hinside := hp final ⟨hentered, herrors, hnested⟩
  refine ⟨?_, hinside.errors, hinside.nested⟩
  have hcount : final.counters.entered ≤ s.counters.entered + 1 + 3 * s.tokens.length + n :=
    hinside.entered
  change final.counters.entered ≤ s.counters.entered + 3 * s.tokens.length + (n + 1)
  omega

/-! ### Repeating and climbing -/

/-- By induction on the tokens that are left, of which every round takes one. -/
theorem many (h : Leads kind false closers inType' closers')
    (hp : ∀ s, Carries p s ⟨inType', closers', n + 3⟩ ⟨false, closers, n⟩) (s : ParserState) :
    Carries (many kind p) s ⟨false, closers, n⟩ ⟨false, closers, n⟩ := by
  induction hlength : s.tokens.length using Nat.strongRecOn generalizing s with
  | ind len ih =>
    intro final hsettles
    by_cases hkind : s.next.kind = kind
    · have htokens := exists_tokens (hkind ▸ h.ne_eof)
      have hle : (p s.behind).state.tokens.length ≤ s.behind.tokens.length := (p s.behind).length_le
      rw [(many_of_cons htokens hkind).2] at hsettles
      refine advance hkind h final (hp s.behind final (ih _ ?_ _ rfl final hsettles))
      rw [← hlength, htokens, List.length_cons]
      exact Nat.lt_succ_of_le hle
    · have hne (t : Token) (ts : List Token) (htokens : s.tokens = t :: ts) : t.kind ≠ kind := by
        rwa [ParserState.next, htokens] at hkind
      rwa [(many_of_ne hne).2] at hsettles

/-- A list whose members cost no more than a comma pays for costs as much as its first member. -/
theorem commaList {c : Nat} (hc : c ≤ 3)
    (hp : ∀ s n, Carries p s ⟨false, closers, n + c⟩ ⟨false, closers, n⟩) :
    Carries (commaList p) s ⟨false, closers, n + c⟩ ⟨false, closers, n⟩ := by
  refine (hp s n).bind fun first s => ?_
  refine (many (.plain rfl) (fun s => ?_) s).bind fun rest s => pure (Nat.le_refl _) _
  exact (hp s n).mono (Nat.add_le_add_left hc n)

/-- By induction on the tokens that are left, of which every operator takes one. -/
theorem climb {operand : OperandParser} {levels : Nat}
    (h : ∀ left precedence s, s.next.infixPrecedence? = some precedence →
      Carries (Parser.advance >>= fun t => operatorRest operand levels t left precedence) s
        ⟨false, closers, n⟩ ⟨false, closers, n⟩)
    (least : Precedence) (left : Expr) (s : ParserState) :
    Carries (climb operand levels least left) s ⟨false, closers, n⟩ ⟨false, closers, n⟩ := by
  induction hlength : s.tokens.length using Nat.strongRecOn generalizing s left with
  | ind len ih =>
    intro final hsettles
    by_cases hmore : ∃ t ts precedence, s.tokens = t :: ts ∧
        t.infixPrecedence? = some precedence ∧ least.rank < precedence.rank
    · obtain ⟨t, ts, precedence, htokens, ht, hlt⟩ := hmore
      have hle := (operatorRest operand levels t left precedence { s with tokens := ts }).length_le
      rw [(climb_of_lt levels htokens ht hlt).2] at hsettles
      have hrest := ih _ (by rw [← hlength, htokens, List.length_cons]; exact Nat.lt_succ_of_le hle)
        _ _ rfl final hsettles
      refine h left precedence s ?_ final ?_
      · rw [ParserState.next, htokens]
        exact ht
      · change Settles final _ (operatorRest operand levels s.next left precedence s.behind).state
        rwa [ParserState.next, ParserState.behind, htokens]
    · rw [(climb_of_le levels fun t ts precedence htokens ht => ?_).2] at hsettles
      · exact hsettles
      · by_contra hlt
        exact hmore ⟨t, ts, precedence, htokens, ht, Nat.lt_of_not_le hlt⟩

/-! ### Names -/

/-- Taking a name takes a token at least, which pays for three calls. -/
theorem takeName (hkind : s.next.kind = .name ∨ s.next.kind = .star) :
    Carries takeName s ⟨inType, closers, n⟩ ⟨false, closers, n + 3⟩ := by
  intro final hsettles
  obtain ⟨hentered, herrors, hnested⟩ := hsettles
  have htokens : s.tokens = s.next :: s.behind.tokens := by
    refine exists_tokens fun heof => ?_
    rw [heof] at hkind
    exact hkind.elim (fun h => absurd h (by decide)) fun h => absurd h (by decide)
  refine ⟨hentered.trans ?_, herrors, fun hfinal hlexed => ?_⟩
  · have hle : (splitName s.tokens).2.length ≤ s.behind.tokens.length := by
      rw [htokens]
      exact (joinName_suffix _ _ _ (List.suffix_refl _) (List.suffix_refl _)).length_le
    change s.counters.entered + 3 * (splitName s.tokens).2.length + (n + 3) ≤
      s.counters.entered + 3 * s.tokens.length + n
    rw [htokens, List.length_cons, ← htokens]
    omega
  · obtain ⟨us, hus, heq⟩ := splitName_plain (htokens ▸ hlexed) hkind
    rw [← htokens] at heq
    rw [heq]
    refine .plains hus (hnested hfinal ?_) _
    rw [heq] at hlexed
    exact hlexed.behind

/-- A name that was taken is read without further tokens. -/
theorem nameOf (start : Token) (text : String) :
    Carries (nameOf start text) s ⟨inType, closers, n⟩ ⟨false, closers, n⟩ := by
  unfold Parser.nameOf
  split
  · exact pure (Nat.le_refl _) _
  · exact errorAt_pure _ _ _

/-- Reading a qualified name owes no bracket and costs no call. -/
theorem qualifiedName (expected : String) :
    Carries (qualifiedName expected) s ⟨inType, closers, n⟩ ⟨false, closers, n⟩ := by
  refine isAt (fun hkind => current ?_) (error_pure _ _)
  exact (takeName (Or.inl hkind)).bind fun _ _ => (nameOf _ _).mono (Nat.le_add_right ..)

/-- A name test is read of a name that was taken. -/
theorem nameTestOf (start : Token) (text : String) :
    Carries (nameTestOf start text) s ⟨inType, closers, n⟩ ⟨false, closers, n⟩ := by
  unfold Parser.nameTestOf
  have hpure (test : NodeTest) :
      Carries (Pure.pure test) s ⟨inType, closers, n⟩ ⟨false, closers, n⟩ := pure (Nat.le_refl _) _
  refine ite (fun _ => hpure _) fun _ => ?_
  refine ite (fun _ => hpure _) fun _ => ?_
  refine ite (fun _ => hpure _) fun _ => ?_
  exact (nameOf start text).bind fun _ _ => pure (Nat.le_refl _) _

end Carries

end Parser

end TreeQuery
