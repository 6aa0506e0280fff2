import TreeQuery.Proofs.Expr.Grouping
import TreeQuery.Proofs.Parser.Persists
import TreeQuery.Proofs.Parser.Position
import TreeQuery.Proofs.Token.Gaps

/-!
# Layout

Two texts whose tokens differ at most in where they stand are read alike. The readers that go back to the
source are in step too: the search for a comma finds what the tokens say, a name is cut out by its tokens,
and an error is noted at the same place of both texts, so the same errors are left out.
-/

namespace TreeQuery.Parser

section

variable (a b : List Char)

/-- Tokens at the same place of two texts. -/
def SamePlace (t t' : Token) : Prop := ∃ k, t = tokenAt a k ∧ t' = tokenAt b k

/-- All tokens from the same place of two texts on. -/
def Aligned (ts ts' : List Token) : Prop := ∃ k, ts = (tokenize a).drop k ∧ ts' = (tokenize b).drop k

/-- Errors that miss the same at the same place of two texts. -/
structure SameError (e e' : SyntaxError) : Prop where
  expected : e.expected = e'.expected
  got : e.got = e'.got
  offset : ∃ k, e.offset = (tokenAt a k).offset ∧ e'.offset = (tokenAt b k).offset

/-- States at the same place of two texts, where the same was missed before. -/
structure Matches (s s' : ParserState) : Prop where
  source : s.source = a
  source' : s'.source = b
  tokens : Aligned a b s.tokens s'.tokens
  errors : List.Forall₂ (SameError a b) s.errors s'.errors

/-- Readers that find the same in both texts and stay at the same place. -/
def Agrees {α : Type} (p q : Parser α) : Prop :=
  ∀ s s', Matches a b s s' → (p s).value = (q s').value ∧ Matches a b (p s).state (q s').state

end

variable {a b : List Char} {α β : Type} {s s' : ParserState}

/-! ### Places -/

private theorem headD_drop_tokenize (k : Nat) (hs : s.source = a) :
    ((tokenize a).drop k).headD (endToken s) = tokenAt a k := by
  rw [List.headD_eq_head?_getD, List.head?_drop, tokenAt, endToken, hs]

namespace Matches

variable (hs : Matches a b s s')

include hs

private theorem head : SamePlace a b (s.tokens.headD (endToken s)) (s'.tokens.headD (endToken s')) := by
  obtain ⟨k, htokens, htokens'⟩ := hs.tokens
  refine ⟨k, ?_, ?_⟩
  · rw [htokens, headD_drop_tokenize k hs.source]
  · rw [htokens', headD_drop_tokenize k hs.source']

/-- Readers that take the same tokens stay at the same place. -/
theorem withTokens {ts ts' : List Token} (h : Aligned a b ts ts') :
    Matches a b { s with tokens := ts } { s' with tokens := ts' } :=
  ⟨hs.source, hs.source', h, hs.errors⟩

private theorem tail :
    Matches a b { s with tokens := s.tokens.tail } { s' with tokens := s'.tokens.tail } := by
  obtain ⟨k, htokens, htokens'⟩ := hs.tokens
  exact hs.withTokens ⟨k + 1, by rw [htokens, List.tail_drop], by rw [htokens', List.tail_drop]⟩

end Matches

section

variable (h : List.Forall₂ Token.Alike (tokenize a) (tokenize b))

include h

private theorem SamePlace.alike {t t' : Token} (ht : SamePlace a b t t') : t.Alike t' := by
  obtain ⟨k, rfl, rfl⟩ := ht
  exact Token.alike_tokenAt h k

private theorem samePlace_endToken (hs : Matches a b s s') :
    SamePlace a b (endToken s) (endToken s') := by
  refine ⟨(tokenize a).length, ?_, ?_⟩
  · rw [tokenAt_of_le (Nat.le_refl _), endToken, hs.source]
  · rw [tokenAt_of_le h.length_eq.ge, endToken, hs.source']

/-- At the same place both texts end, or both go on with tokens at the same place. -/
theorem Aligned.cases {ts ts' : List Token} (hts : Aligned a b ts ts') :
    (ts = [] ∧ ts' = []) ∨ ∃ t us t' us', ts = t :: us ∧ ts' = t' :: us' ∧ SamePlace a b t t' ∧
      Aligned a b us us' := by
  obtain ⟨k, rfl, rfl⟩ := hts
  by_cases hk : k < (tokenize a).length
  · have hk' : k < (tokenize b).length := h.length_eq ▸ hk
    refine Or.inr ⟨_, _, _, _, List.drop_eq_getElem_cons hk, List.drop_eq_getElem_cons hk', ⟨k, ?_, ?_⟩,
      k + 1, rfl, rfl⟩
    · rw [tokenAt, List.getElem?_eq_getElem hk, Option.getD_some]
    · rw [tokenAt, List.getElem?_eq_getElem hk', Option.getD_some]
  · rw [Nat.not_lt] at hk
    exact Or.inl ⟨List.drop_eq_nil_iff.mpr hk, List.drop_eq_nil_iff.mpr (h.length_eq ▸ hk)⟩

/-! ### Readers of tokens -/

omit h in
private theorem agrees_pure (x : α) : Agrees a b (pure x) (pure x) := fun _ _ hs => ⟨rfl, hs⟩

omit h in
private theorem Agrees.bind {p q : Parser α} {f g : α → Parser β} (hp : Agrees a b p q)
    (hf : ∀ x, Agrees a b (f x) (g x)) : Agrees a b (p >>= f) (q >>= g) := by
  intro s s' hs
  obtain ⟨hvalue, hstate⟩ := hp s s' hs
  have hrest := hf (p s).value _ _ hstate
  change (f (p s).value (p s).state).value = (g (q s').value (q s').state).value ∧
    Matches a b (f (p s).value (p s).state).state (g (q s').value (q s').state).state
  rwa [← hvalue]

omit h in
private theorem agrees_note {e e' : SyntaxError} (he : SameError a b e e') :
    Agrees a b (note e) (note e') :=
  fun _ _ hs => ⟨rfl, hs.source, hs.source', hs.tokens, .cons he hs.errors⟩

omit h in
private theorem agrees_count (f : Counters → Counters) : Agrees a b (count f) (count f) :=
  fun _ _ hs => ⟨rfl, hs.source, hs.source', hs.tokens, hs.errors⟩

omit h in
private theorem Agrees.nested {p q : Parser α} (hp : Agrees a b p q) :
    Agrees a b (nested p) (nested q) :=
  (agrees_count _).bind fun _ => hp.bind fun _ => (agrees_count _).bind fun _ => agrees_pure _

private theorem agrees_errorAt {t t' : Token} (ht : SamePlace a b t t') (expected : String) :
    Agrees a b (failed (errorAt t expected)) (failed (errorAt t' expected)) := by
  refine (agrees_count _).bind fun _ => agrees_note ⟨rfl, (ht.alike h).text, ?_⟩
  obtain ⟨k, rfl, rfl⟩ := ht
  exact ⟨k, rfl, rfl⟩

omit h in
private theorem agrees_current {f g : Token → Parser α}
    (hf : ∀ t t', SamePlace a b t t' → Agrees a b (f t) (g t')) :
    Agrees a b (current >>= f) (current >>= g) := fun s s' hs => hf _ _ hs.head s s' hs

omit h in
private theorem agrees_advance {f g : Token → Parser α}
    (hf : ∀ t t', SamePlace a b t t' → Agrees a b (f t) (g t')) :
    Agrees a b (advance >>= f) (advance >>= g) := fun _ _ hs => hf _ _ hs.head _ _ hs.tail

private theorem agrees_following : Agrees a b following following :=
  fun _ _ hs => ⟨(hs.tail.head.alike h).kind, hs⟩

omit h in
private theorem agrees_lastError {f g : Option SyntaxError → Parser α}
    (hf : ∀ e e', Option.Rel (SameError a b) e e' → Agrees a b (f e) (g e')) :
    Agrees a b (lastError >>= f) (lastError >>= g) := by
  intro s s' hs
  refine hf s.errors.head? s'.errors.head? ?_ s s' hs
  match s.errors, s'.errors, hs.errors with
  | [], [], .nil => exact .none
  | _ :: _, _ :: _, .cons he _ => exact .some he

/-- An error is left out in both texts or in none: the last one stands at the same place of both. -/
theorem agrees_error (expected : String) : Agrees a b (failed (error expected)) (failed (error expected)) := by
  refine (agrees_count _).bind fun _ => agrees_current fun t t' ht => agrees_lastError fun e e' he => ?_
  have halike := ht.alike h
  have hlast : (e.any fun e => e.offset == t.offset) = e'.any fun e => e.offset == t'.offset := by
    obtain ⟨k, rfl, rfl⟩ := ht
    cases he with
    | none => rfl
    | some he =>
      obtain ⟨j, hj, hj'⟩ := he.offset
      rw [Option.any_some, Option.any_some, hj, hj', Bool.eq_iff_iff, beq_iff_eq, beq_iff_eq]
      exact offset_eq_iff_of_alike h j k
  rw [hlast, halike.kind, halike.text]
  split
  · exact agrees_pure ()
  · obtain ⟨k, rfl, rfl⟩ := ht
    exact agrees_note ⟨rfl, rfl, k, rfl, rfl⟩

/-! ### Readers of several tokens -/

/-- A name goes on for as long as tokens belong to it, which their texts and blanks tell. -/
theorem joinName_of_aligned {best best' : List Char × List Token} (joined : List Char) {ts ts' : List Token}
    (htext : best.1 = best'.1) (hrest : Aligned a b best.2 best'.2) (hts : Aligned a b ts ts') :
    (joinName best joined ts).1 = (joinName best' joined ts').1 ∧
      Aligned a b (joinName best joined ts).2 (joinName best' joined ts').2 := by
  induction ts generalizing best best' joined ts' with
  | nil =>
    obtain ⟨-, rfl⟩ | ⟨t, us, t', us', hcons, -⟩ := hts.cases h
    · exact ⟨htext, hrest⟩
    · contradiction
  | cons t ts ih =>
    obtain ⟨hnil, -⟩ | ⟨_, _, t', us', ⟨⟩, rfl, ht, hus⟩ := hts.cases h
    · contradiction
    · have halike := ht.alike h
      rw [joinName, joinName, halike.text, halike.spaced]
      split
      · exact ⟨htext, hrest⟩
      · split
        · exact ih _ htext hrest hus
        · exact ih _ rfl hus hus

private theorem agrees_takeName : Agrees a b takeName takeName := by
  intro s s' hs
  have hfound : (splitName s.tokens).1 = (splitName s'.tokens).1 ∧
      Aligned a b (splitName s.tokens).2 (splitName s'.tokens).2 := by
    obtain ⟨hnil, hnil'⟩ | ⟨t, us, t', us', hcons, hcons', ht, hus⟩ := hs.tokens.cases h
    · have htokens := hs.tokens
      rw [hnil, hnil'] at htokens ⊢
      exact ⟨rfl, htokens⟩
    · rw [hcons, hcons', splitName, splitName, (ht.alike h).text]
      exact joinName_of_aligned h _ rfl hus hus
  exact ⟨congrArg String.ofList hfound.1, hs.withTokens hfound.2⟩

/-- A group is closed by the kinds of its tokens. -/
theorem skipGroup_of_aligned (depth : Nat) {ts ts' : List Token} (hts : Aligned a b ts ts') :
    (skipGroup depth ts).2 = (skipGroup depth ts').2 ∧
      Aligned a b (skipGroup depth ts).1 (skipGroup depth ts').1 := by
  induction ts generalizing depth ts' with
  | nil =>
    obtain ⟨-, rfl⟩ | ⟨t, us, t', us', hcons, -⟩ := hts.cases h
    · exact ⟨rfl, hts⟩
    · contradiction
  | cons t ts ih =>
    obtain ⟨hnil, -⟩ | ⟨_, _, t', us', ⟨⟩, rfl, ht, hus⟩ := hts.cases h
    · contradiction
    · rw [skipGroup, skipGroup, (ht.alike h).kind]
      split
      · exact ih _ hus
      · split
        · exact ⟨rfl, hus⟩
        · exact ih _ hus
      · exact ih _ hus

private theorem agrees_skipParameters : Agrees a b skipParameters skipParameters := by
  intro s s' hs
  obtain ⟨hclosed, hrest⟩ := skipGroup_of_aligned h 0 hs.tokens
  have hskipped := hs.withTokens hrest
  unfold skipParameters
  dsimp only
  rw [hclosed]
  split
  · exact ⟨rfl, hskipped⟩
  · exact ⟨rfl, (agrees_errorAt h (samePlace_endToken h hs) _ _ _ hskipped).2⟩

/-! ### The search for a comma -/

private theorem commaAmong_of_aligned (depth : Nat) {ts ts' : List Token} (hts : Aligned a b ts ts') :
    commaAmong depth ts = commaAmong depth ts' := by
  induction ts generalizing depth ts' with
  | nil =>
    obtain ⟨-, rfl⟩ | ⟨t, us, t', us', hcons, -⟩ := hts.cases h
    · rfl
    · contradiction
  | cons t ts ih =>
    obtain ⟨hnil, -⟩ | ⟨_, _, t', us', ⟨⟩, rfl, ht, hus⟩ := hts.cases h
    · contradiction
    · rw [commaAmong, commaAmong, (ht.alike h).kind]
      exact congrArg _ (funext fun depth => ih depth hus)

end

/-- Behind any number of tokens the parser stands in front of some rest of the text. -/
theorem exists_at_drop_tokenize (source : List Char) (k : Nat) :
    ∃ cs, ParserState.At { source, tokens := (tokenize source).drop k, errors := [] } cs := by
  induction k with
  | zero => exact ⟨source, .start source⟩
  | succ k ih =>
    obtain ⟨cs, hcs⟩ := ih
    have htail := hcs.tail
    rw [List.tail_drop] at htail
    exact ⟨_, htail⟩

/-- The search for a comma behind a token finds what the tokens behind it say. -/
theorem hasOwnComma_textFrom (source : List Char) (k : Nat) :
    hasOwnComma (textFrom ((tokenAt source k).offset + (tokenAt source k).text.utf8ByteSize) source) =
      commaAmong 0 ((tokenize source).drop (k + 1)) := by
  obtain ⟨cs, hcs⟩ := exists_at_drop_tokenize source k
  by_cases hk : k < (tokenize source).length
  · have heof : nextKind cs ≠ .eof := by
      intro heof
      obtain ⟨-, before, spaced, -, htokens⟩ := hcs
      rw [Cursor.tokens_of_eof heof] at htokens
      exact absurd hk (Nat.not_lt_of_le (List.drop_eq_nil_iff.mp htokens))
    have htext := hcs.textFrom_head heof
    obtain ⟨before, -, -, htail⟩ := hcs.behind
    dsimp only at htext htail
    rw [headD_drop_tokenize k (show ParserState.source _ = source from rfl)] at htext
    rw [List.tail_drop] at htail
    rw [htext, htail, hasOwnComma]
    exact commaAhead_eq_commaAmong _ _ _
  · rw [Nat.not_lt] at hk
    have hend := textFrom_append source []
    rw [List.append_nil] at hend
    rw [tokenAt_of_le hk, List.drop_eq_nil_iff.mpr (Nat.le_succ_of_le hk)]
    change hasOwnComma (textFrom (byteLength source) source) = false
    rw [hend]
    rfl

private theorem agrees_isAtList (h : List.Forall₂ Token.Alike (tokenize a) (tokenize b)) :
    Agrees a b isAtList isAtList := by
  intro s s' hs
  refine ⟨?_, hs⟩
  obtain ⟨k, htokens, htokens'⟩ := hs.tokens
  change hasOwnComma (textFrom ((s.tokens.headD (endToken s)).offset +
      (s.tokens.headD (endToken s)).text.utf8ByteSize) s.source) =
    hasOwnComma (textFrom ((s'.tokens.headD (endToken s')).offset +
      (s'.tokens.headD (endToken s')).text.utf8ByteSize) s'.source)
  rw [htokens, htokens', headD_drop_tokenize k hs.source, headD_drop_tokenize k hs.source', hs.source,
    hs.source', hasOwnComma_textFrom, hasOwnComma_textFrom]
  exact commaAmong_of_aligned h 0 ⟨k + 1, rfl, rfl⟩

/-! ### Readers put together -/

private theorem Agrees.many (h : List.Forall₂ Token.Alike (tokenize a) (tokenize b)) {p q : Parser α}
    (kind : TokenKind) (hp : Agrees a b p q) : Agrees a b (many kind p) (many kind q) := by
  intro s s' hs
  induction hn : s.tokens.length using Nat.strongRecOn generalizing s s' with
  | ind n ih =>
    obtain ⟨hnil, hnil'⟩ | ⟨t, us, t', us', hcons, hcons', ht, hus⟩ := hs.tokens.cases h
    · have hne : ∀ t us, s.tokens = t :: us → t.kind ≠ kind := by simp [hnil]
      have hne' : ∀ t us, s'.tokens = t :: us → t.kind ≠ kind := by simp [hnil']
      obtain ⟨hvalue, hstate⟩ := many_of_ne (p := p) hne
      obtain ⟨hvalue', hstate'⟩ := many_of_ne (p := q) hne'
      rw [hvalue, hstate, hvalue', hstate']
      exact ⟨rfl, hs⟩
    · by_cases hkind : t.kind = kind
      · obtain ⟨hvalue, hstate⟩ := many_of_cons (p := p) hcons hkind
        obtain ⟨hvalue', hstate'⟩ := many_of_cons (p := q) hcons' ((ht.alike h).kind.symm.trans hkind)
        obtain ⟨hfirst, hbehind⟩ := hp _ _ (hs.withTokens hus)
        have hle : (p { s with tokens := us }).state.tokens.length ≤ us.length :=
          (p { s with tokens := us }).length_le
        obtain ⟨hrest, hend⟩ := ih _ (by rw [← hn, hcons, List.length_cons]; omega) _ _ hbehind rfl
        rw [hvalue, hstate, hvalue', hstate', hfirst, hrest]
        exact ⟨rfl, hend⟩
      · have hne : ∀ t us, s.tokens = t :: us → t.kind ≠ kind := by simp [hcons, hkind]
        have hne' : ∀ t us, s'.tokens = t :: us → t.kind ≠ kind := by
          simp [hcons', ← (ht.alike h).kind, hkind]
        obtain ⟨hvalue, hstate⟩ := many_of_ne (p := p) hne
        obtain ⟨hvalue', hstate'⟩ := many_of_ne (p := q) hne'
        rw [hvalue, hstate, hvalue', hstate']
        exact ⟨rfl, hs⟩

private theorem Agrees.climb (h : List.Forall₂ Token.Alike (tokenize a) (tokenize b))
    {operand : OperandParser}
    {levels : Nat} (hrest : ∀ t t' left precedence, SamePlace a b t t' →
      Agrees a b (operatorRest operand levels t left precedence)
        (operatorRest operand levels t' left precedence)) (least : Precedence) (left : Expr) :
    Agrees a b (climb operand levels least left) (climb operand levels least left) := by
  intro s s' hs
  induction hn : s.tokens.length using Nat.strongRecOn generalizing s s' left with
  | ind n ih =>
    have hstop (hle : ∀ t ts precedence, s.tokens = t :: ts → t.infixPrecedence? = some precedence →
          precedence.rank ≤ least.rank)
        (hle' : ∀ t ts precedence, s'.tokens = t :: ts → t.infixPrecedence? = some precedence →
          precedence.rank ≤ least.rank) :
        (Parser.climb operand levels least left s).value =
            (Parser.climb operand levels least left s').value ∧
          Matches a b (Parser.climb operand levels least left s).state
            (Parser.climb operand levels least left s').state := by
      rw [(climb_of_le levels hle).1, (climb_of_le levels hle).2, (climb_of_le levels hle').1,
        (climb_of_le levels hle').2]
      exact ⟨rfl, hs⟩
    obtain ⟨hnil, hnil'⟩ | ⟨t, us, t', us', hcons, hcons', ht, hus⟩ := hs.tokens.cases h
    · exact hstop (by simp [hnil]) (by simp [hnil'])
    · have halike : t.infixPrecedence? = t'.infixPrecedence? := by
        rw [Token.infixPrecedence?, Token.infixPrecedence?, (ht.alike h).kind, (ht.alike h).text]
      by_cases hmore : ∃ precedence, t.infixPrecedence? = some precedence ∧ least.rank < precedence.rank
      · obtain ⟨precedence, hfound, hlt⟩ := hmore
        have hfound' := halike.symm.trans hfound
        obtain ⟨hvalue, hbehind⟩ := hrest t t' left precedence ht _ _ (hs.withTokens hus)
        have hle := (operatorRest operand levels t left precedence { s with tokens := us }).length_le
        have hlonger := ih _ (by rw [← hn, hcons, List.length_cons]; exact Nat.lt_succ_of_le hle)
          (operatorRest operand levels t left precedence { s with tokens := us }).value _ _ hbehind rfl
        rw [(climb_of_lt levels hcons hfound hlt).1, (climb_of_lt levels hcons hfound hlt).2,
          (climb_of_lt levels hcons' hfound' hlt).1, (climb_of_lt levels hcons' hfound' hlt).2, ← hvalue]
        exact hlonger
      · have hle : ∀ precedence, t.infixPrecedence? = some precedence → precedence.rank ≤ least.rank :=
          fun precedence hfound => Nat.le_of_not_lt fun hlt => hmore ⟨precedence, hfound, hlt⟩
        refine hstop ?_ ?_
        · rintro _ _ precedence htokens hfound
          obtain ⟨rfl, -⟩ := List.cons.inj (hcons.symm.trans htokens)
          exact hle precedence hfound
        · rintro _ _ precedence htokens hfound
          obtain ⟨rfl, -⟩ := List.cons.inj (hcons'.symm.trans htokens)
          exact hle precedence (halike.trans hfound)

private theorem congruence_agrees (h : List.Forall₂ Token.Alike (tokenize a) (tokenize b)) :
    Congruence (fun _ => Agrees a b) (SamePlace a b) where
  kind ht := (ht.alike h).kind
  text ht := (ht.alike h).text
  pure := agrees_pure
  bind := .bind
  current := agrees_current
  advance := agrees_advance
  following := agrees_following h
  nested hp := hp.nested
  error := agrees_error h
  errorAt := agrees_errorAt h
  takeName := agrees_takeName h
  skipParameters := agrees_skipParameters h
  isAtList := agrees_isAtList h
  many kind hp := hp.many h kind
  climb := .climb h

end TreeQuery.Parser

namespace TreeQuery.Expr

/-- Two texts are read as the same expression, and the same is missed in them, maybe elsewhere. -/
structure SameReading (a b : String) : Prop where
  value : (read a).1 = (read b).1
  errors : List.Forall₂ (fun e e' => e.expected = e'.expected ∧ e.got = e'.got) (read a).2 (read b).2

private theorem sameReading_of_alike {a b : String}
    (h : List.Forall₂ Token.Alike (tokenize a.toList) (tokenize b.toList)) : SameReading a b := by
  obtain ⟨hvalue, hstate⟩ := (Parser.congruence_agrees h).program
    { source := a.toList, tokens := tokenize a.toList, errors := [] }
    { source := b.toList, tokens := tokenize b.toList, errors := [] } ⟨rfl, rfl, ⟨0, rfl, rfl⟩, .nil⟩
  refine ⟨hvalue, List.rel_reverse ?_⟩
  exact hstate.errors.imp fun e e' he => ⟨he.expected, he.got⟩

private theorem alike_of_gap {p q w w' : String} (hw : IsGap w.toList) (hw' : IsGap w'.toList)
    (hend : ∃ t ∈ tokenize (p ++ w ++ q).toList, t.stop = p.utf8ByteSize) :
    List.Forall₂ Token.Alike (tokenize (p ++ w ++ q).toList) (tokenize (p ++ w' ++ q).toList) := by
  have hsize : p.utf8ByteSize = byteLength p.toList := by
    rw [← utf8ByteSize_ofList, String.ofList_toList]
  simp only [String.toList_append, List.append_assoc, hsize] at hend ⊢
  exact TreeQuery.alike_of_gap hw hw' hend

/-- What is read depends on the tokens only, and neither on where they stand nor on what stands between
them: a gap behind a token, whatever its comments are about, can take the place of any other. -/
theorem read_independent_of_layout :
    (∀ a b : String, List.Forall₂ Token.Alike (tokenize a.toList) (tokenize b.toList) →
      SameReading a b) ∧
    ∀ p q w w' : String, IsGap w.toList → IsGap w'.toList →
      (∃ t ∈ tokenize (p ++ w ++ q).toList, t.stop = p.utf8ByteSize) →
      SameReading (p ++ w ++ q) (p ++ w' ++ q) :=
  ⟨fun _ _ => sameReading_of_alike, fun _ _ _ _ hw hw' hend =>
    sameReading_of_alike (alike_of_gap hw hw' hend)⟩

/-- A sequence with blanks and a comment around it, and with a comment in place of the blank in it, which has
a comma, brackets, quotes and another comment in it. -/
theorem read_independent_of_layout_sequence :
    SameReading "(1, 2)" " (1,(:,:)2) (:end:)" ∧ SameReading "(1, 2)" "(1,(: ), ] \" (: ' :) :)2)" := by
  have htokens : tokenize "(1, 2)".toList = [⟨.leftParen, "(", 0, true⟩, ⟨.integer, "1", 1, false⟩,
      ⟨.comma, ",", 2, false⟩, ⟨.integer, "2", 4, true⟩, ⟨.rightParen, ")", 5, false⟩] := by
    rw [tokenize, Cursor.start]
    iterate 5 rw [Cursor.tokens_of_not_eof (by decide)]
    rw [Cursor.tokens_of_eof (by decide)]
    rfl
  have htokens' : tokenize " (1,(:,:)2) (:end:)".toList = [⟨.leftParen, "(", 1, true⟩,
      ⟨.integer, "1", 2, false⟩, ⟨.comma, ",", 3, false⟩, ⟨.integer, "2", 9, true⟩,
      ⟨.rightParen, ")", 10, false⟩] := by
    rw [tokenize, Cursor.start]
    iterate 5 rw [Cursor.tokens_of_not_eof (by decide)]
    rw [Cursor.tokens_of_eof (by decide)]
    rfl
  have halike : List.Forall₂ Token.Alike (tokenize "(1, 2)".toList)
      (tokenize " (1,(:,:)2) (:end:)".toList) := by
    rw [htokens, htokens']
    iterate 5 refine List.Forall₂.cons ⟨rfl, rfl, rfl⟩ ?_
    exact .nil
  have hend : ∃ t ∈ tokenize ("(1," ++ " " ++ "2)").toList, t.stop = ("(1,").utf8ByteSize := by
    have htext : ("(1," ++ " " ++ "2)").toList = "(1, 2)".toList := by decide
    rw [htext, htokens]
    exact ⟨⟨.comma, ",", 2, false⟩, by decide, rfl⟩
  have hw : IsGap " ".toList := by decide
  have hw' : IsGap "(: ), ] \" (: ' :) :)".toList := by decide
  exact ⟨read_independent_of_layout.1 _ _ halike,
    read_independent_of_layout.2 "(1," "2)" " " "(: ), ] \" (: ' :) :)" hw hw' hend⟩

end TreeQuery.Expr
