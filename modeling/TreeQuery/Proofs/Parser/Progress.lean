import Mathlib.Tactic.Common
import TreeQuery.Proofs.Parser.Congruence

/-!
# What becomes of the state of a parser

A reader takes tokens, notes what it misses, and goes deeper and comes back. A relation between states
that holds of these steps, and of one step after another, holds between the states in front of every
reader and behind it. It may depend on how many levels of nesting are left.
-/

namespace TreeQuery.Parser

variable {α : Type}

/-! ### Repeating and climbing -/

/-- Reading once more behind a token. -/
theorem many_of_cons {kind : TokenKind} {p : Parser α} {s : ParserState} {t : Token}
    {ts : List Token} (htokens : s.tokens = t :: ts) (hkind : t.kind = kind) :
    (many kind p s).value =
        (p { s with tokens := ts }).value :: (many kind p (p { s with tokens := ts }).state).value ∧
      (many kind p s).state = (many kind p (p { s with tokens := ts }).state).state := by
  obtain ⟨source, tokens, errors, counters⟩ := s
  subst htokens
  rw [many]
  simp only [if_pos hkind, and_self]

/-- Reading no more in front of a token of another kind, or at the end. -/
theorem many_of_ne {kind : TokenKind} {p : Parser α} {s : ParserState}
    (h : ∀ t ts, s.tokens = t :: ts → t.kind ≠ kind) :
    (many kind p s).value = [] ∧ (many kind p s).state = s := by
  obtain ⟨source, tokens, errors, counters⟩ := s
  rw [many]
  cases tokens with
  | nil => exact ⟨rfl, rfl⟩
  | cons t ts =>
    simp only [if_neg (h t ts rfl)]
    exact ⟨rfl, rfl⟩

section

variable {operand : OperandParser} (levels : Nat)

/-- One operator more: its rest is read, and then what follows. -/
theorem climb_of_lt {least precedence : Precedence} {left : Expr} {s : ParserState} {t : Token}
    {ts : List Token} (htokens : s.tokens = t :: ts) (ht : t.infixPrecedence? = some precedence)
    (hlt : least.rank < precedence.rank) :
    let r := operatorRest operand levels t left precedence { s with tokens := ts }
    (climb operand levels least left s).value = (climb operand levels least r.value r.state).value ∧
      (climb operand levels least left s).state =
        (climb operand levels least r.value r.state).state := by
  obtain ⟨source, tokens, errors, counters⟩ := s
  subst htokens
  rw [climb]
  split
  · next hnil => exact absurd hnil (List.cons_ne_nil _ _)
  · next hcons =>
    obtain ⟨rfl, rfl⟩ := List.cons.inj hcons
    split
    · next hnone =>
      rw [ht] at hnone
      contradiction
    · next found hfound =>
      obtain rfl := Option.some.inj (ht.symm.trans hfound)
      simp only [if_neg (Nat.not_le_of_lt hlt), and_self]

/-- No operator more: the next token is none, or one that does not bind tighter. -/
theorem climb_of_le {least : Precedence} {left : Expr} {s : ParserState}
    (hstop : ∀ t ts precedence, s.tokens = t :: ts → t.infixPrecedence? = some precedence →
      precedence.rank ≤ least.rank) :
    (climb operand levels least left s).value = left ∧
      (climb operand levels least left s).state = s := by
  obtain ⟨source, tokens, errors, counters⟩ := s
  rw [climb]
  cases tokens with
  | nil => exact ⟨rfl, rfl⟩
  | cons t ts =>
    dsimp only
    split
    · exact ⟨rfl, rfl⟩
    · next precedence ht =>
      rw [if_pos (hstop t ts precedence rfl ht)]
      exact ⟨rfl, rfl⟩

end

/-! ### Steps -/

/-- An error adds to the errors, or is left out where there is one. -/
theorem error_cases (expected : String) (s : ParserState) :
    (∃ e, (failed (error expected) s).state =
        { s with errors := e :: s.errors, counters := s.counters.miss }) ∨
      s.errors ≠ [] ∧ (failed (error expected) s).state = { s with counters := s.counters.miss } := by
  let t := s.tokens.headD (endToken s)
  let e : SyntaxError :=
    { expected, got := if t.kind == .eof then "end of input" else t.text, offset := t.offset }
  have hstate : (failed (error expected) s).state =
      ((if s.errors.head?.any fun e => e.offset == t.offset then pure () else note e : Parser Unit)
        { s with counters := s.counters.miss }).state := rfl
  rw [hstate]
  split
  · next hsame =>
    refine Or.inr ⟨?_, rfl⟩
    intro hnil
    rw [hnil] at hsame
    contradiction
  · exact Or.inl ⟨e, rfl⟩

/-- Where a check fails there is an error. -/
theorem errors_error_ne_nil (expected : String) (s : ParserState) :
    (failed (error expected) s).state.errors ≠ [] := by
  obtain ⟨e, he⟩ | ⟨hne, he⟩ := error_cases expected s
  · rw [he]
    exact List.cons_ne_nil _ _
  · rwa [he]

/-- A relation between states that holds of what readers do to them. -/
structure Progress (r : Nat → ParserState → ParserState → Prop) : Prop where
  refl (l : Nat) (s : ParserState) : r l s s
  trans {l : Nat} {s t u : ParserState} : r l s t → r l t u → r l s u
  tokens (l : Nat) (s : ParserState) {ts : List Token} (h : ts <:+ s.tokens) :
    r l s { s with tokens := ts }
  missed (l : Nat) (s : ParserState) (e : SyntaxError) :
    r l s { s with errors := e :: s.errors, counters := s.counters.miss }
  suppressed (l : Nat) {s : ParserState} :
    s.errors ≠ [] → r l s { s with counters := s.counters.miss }
  nested {l : Nat} {s t : ParserState} : r l { s with counters := s.counters.enter } t →
    r (l + 1) s { t with counters := t.counters.leave }

namespace Progress

variable {r : Nat → ParserState → ParserState → Prop} (hr : Progress r) {l : Nat}

include hr

private theorem error (expected : String) (s : ParserState) :
    r l s (failed (Parser.error expected) s).state := by
  obtain ⟨e, he⟩ | ⟨hne, he⟩ := error_cases expected s
  · rw [he]
    exact hr.missed l s e
  · rw [he]
    exact hr.suppressed l hne

private theorem skipParameters (s : ParserState) : r l s (skipParameters s).state := by
  unfold Parser.skipParameters
  dsimp only
  split
  · exact hr.tokens l s (skipGroup_suffix 0 s.tokens)
  · exact hr.trans (hr.tokens l s (skipGroup_suffix 0 s.tokens)) (hr.missed l _ _)

/-- By induction on the tokens that are left, of which every round takes one. -/
theorem many {p : Parser α} (kind : TokenKind) (hp : ∀ s, r l s (p s).state) (s : ParserState) :
    r l s (many kind p s).state := by
  induction hn : s.tokens.length using Nat.strongRecOn generalizing s with
  | ind n ih =>
    by_cases h : ∃ t ts, s.tokens = t :: ts ∧ t.kind = kind
    · obtain ⟨t, ts, htokens, hkind⟩ := h
      have hle : (p { s with tokens := ts }).state.tokens.length ≤ ts.length :=
        (p { s with tokens := ts }).length_le
      rw [(many_of_cons htokens hkind).2]
      have hbehind : ts <:+ s.tokens := htokens ▸ List.suffix_cons t ts
      refine hr.trans (hr.trans (hr.tokens l s hbehind) (hp _)) (ih _ ?_ _ rfl)
      rw [← hn, htokens, List.length_cons]
      exact Nat.lt_succ_of_le hle
    · rw [(many_of_ne fun t ts htokens hkind => h ⟨t, ts, htokens, hkind⟩).2]
      exact hr.refl l s

/-- By induction on the tokens that are left, of which every operator takes one. -/
theorem climb {operand : OperandParser} {levels : Nat}
    (h : ∀ t left precedence s, r l s (operatorRest operand levels t left precedence s).state)
    (least : Precedence) (left : Expr) (s : ParserState) :
    r l s (climb operand levels least left s).state := by
  induction hn : s.tokens.length using Nat.strongRecOn generalizing s left with
  | ind n ih =>
    by_cases hmore : ∃ t ts precedence, s.tokens = t :: ts ∧
        t.infixPrecedence? = some precedence ∧ least.rank < precedence.rank
    · obtain ⟨t, ts, precedence, htokens, ht, hlt⟩ := hmore
      have hle := (operatorRest operand levels t left precedence { s with tokens := ts }).length_le
      rw [(climb_of_lt levels htokens ht hlt).2]
      have hbehind : ts <:+ s.tokens := htokens ▸ List.suffix_cons t ts
      refine hr.trans (hr.trans (hr.tokens l s hbehind) (h t left precedence _)) (ih _ ?_ _ _ rfl)
      rw [← hn, htokens, List.length_cons]
      exact Nat.lt_succ_of_le hle
    · have hstop : ∀ t ts precedence, s.tokens = t :: ts →
          t.infixPrecedence? = some precedence → precedence.rank ≤ least.rank := by
        intro t ts precedence htokens ht
        by_contra hlt
        exact hmore ⟨t, ts, precedence, htokens, ht, Nat.lt_of_not_le hlt⟩
      rw [(climb_of_le levels hstop).2]
      exact hr.refl l s

/-- It holds of every reader. -/
theorem congruence : Congruence (fun l _ p _ => ∀ s, r l s (p s).state)
    fun t t' => t.kind = t'.kind ∧ t.text = t'.text where
  kind h := h.1
  text h := h.2
  pure _ s := hr.refl _ s
  bind hp hf s := hr.trans (hp s) (hf _ _)
  current hf s := hf _ _ ⟨rfl, rfl⟩ s
  advance hf s := hr.trans (hr.tokens _ s (List.tail_suffix s.tokens)) (hf _ _ ⟨rfl, rfl⟩ _)
  following := hr.refl _
  nested hp _ := hr.nested (hp _)
  error expected s := hr.error expected s
  errorAt _ _ s := hr.missed _ s _
  takeName s := hr.tokens _ s (splitName_suffix s.tokens)
  skipParameters s := hr.skipParameters s
  isAtList s := hr.refl _ s
  many kind hp s := hr.many kind hp s
  climb h least left s :=
    hr.climb (fun t left precedence => h t t left precedence ⟨rfl, rfl⟩) least left s

end Progress

end TreeQuery.Parser
