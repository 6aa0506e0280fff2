import TreeQuery.Proofs.Parser.Brackets
import TreeQuery.Proofs.Token.Places

/-!
# The counts of a run

Every reader comes back to the level of nesting that it started from, and goes no deeper than it has
levels left. A check that fails leaves an error: the first one is noted, and one that is left out because
of another at the same place finds that one there. How often a run goes deeper is bounded by its
tokens, and so by the length of the text. Tokens are only taken off the front, so what is left in the end
is the end of the text, and that it should not be there is the last check.
-/

namespace TreeQuery.Parser

/-- What a reader with so many levels of nesting left does to the counts. -/
structure Counted (levels : Nat) (s t : ParserState) : Prop where
  depth : t.counters.depth = s.counters.depth
  deepest : t.counters.deepest ≤ max s.counters.deepest (s.counters.depth + levels)
  missed : (s.counters.missed = 0 ↔ s.errors = []) → (t.counters.missed = 0 ↔ t.errors = [])

private theorem progress_counted : Progress Counted where
  refl _ _ := ⟨rfl, Nat.le_max_left _ _, id⟩
  trans {levels s t u} h h' := by
    refine ⟨h'.depth.trans h.depth, ?_, h'.missed ∘ h.missed⟩
    calc u.counters.deepest
        ≤ max t.counters.deepest (t.counters.depth + levels) := h'.deepest
      _ = max t.counters.deepest (s.counters.depth + levels) := by rw [h.depth]
      _ ≤ max s.counters.deepest (s.counters.depth + levels) :=
          Nat.max_le.mpr ⟨h.deepest, Nat.le_max_right _ _⟩
  tokens _ _ _ _ := ⟨rfl, Nat.le_max_left _ _, id⟩
  missed _ s e := by
    refine ⟨rfl, Nat.le_max_left _ _, fun _ => ?_⟩
    exact iff_of_false (Nat.succ_ne_zero _) (List.cons_ne_nil _ _)
  suppressed _ s hne := by
    refine ⟨rfl, Nat.le_max_left _ _, fun _ => ?_⟩
    exact iff_of_false (Nat.succ_ne_zero _) hne
  nested {levels s t} h := by
    obtain ⟨hdepth, hdeepest, hmissed⟩ := h
    change t.counters.depth = s.counters.depth + 1 at hdepth
    change t.counters.deepest ≤ max (max s.counters.deepest (s.counters.depth + 1))
      (s.counters.depth + 1 + levels) at hdeepest
    refine ⟨?_, ?_, hmissed⟩
    · change t.counters.depth - 1 = s.counters.depth
      rw [hdepth, Nat.add_sub_cancel]
    · change t.counters.deepest ≤ max s.counters.deepest (s.counters.depth + (levels + 1))
      omega

/-- Readers take tokens off the front. -/
theorem progress_tokens : Progress fun _ s t => t.tokens <:+ s.tokens where
  refl _ _ := List.suffix_rfl
  trans h h' := h'.trans h
  tokens _ _ _ h := h
  missed _ _ _ := List.suffix_rfl
  suppressed _ _ _ := List.suffix_rfl
  nested h := h

/-- A whole expression is read to the end of the text, or an error is noted. -/
theorem next_program (s : ParserState) (h : (program s).state.errors = []) :
    (program s).state.next.kind = .eof := by
  have hend (e : Expr) (s : ParserState) :
      let rest : Parser Expr := do
        if !(← isAt .eof) then failed (error "end of input")
        return e
      (rest s).state.errors = [] → (rest s).state.next.kind = .eof := by
    change ((if (!(s.next.kind == .eof)) = true then _ else _ : Parser Expr) s).state.errors = [] →
      ((if (!(s.next.kind == .eof)) = true then _ else _ : Parser Expr) s).state.next.kind = .eof
    split
    · exact fun h => absurd h (errors_error_ne_nil _ _)
    · next hkind =>
      rw [Bool.not_eq_true', Bool.not_eq_false, beq_iff_eq] at hkind
      exact fun _ => hkind
  revert h
  change ((if (s.next.kind == .eof) = true then _ else _ : Parser Expr) s).state.errors = [] →
    ((if (s.next.kind == .eof) = true then _ else _ : Parser Expr) s).state.next.kind = .eof
  split
  · exact fun h => absurd h (errors_error_ne_nil _ _)
  · exact hend _ _

/-- Where tokens of a text are left over there is an error. -/
theorem tokens_program {s : ParserState} (hlexed : Lexed s.tokens)
    (h : (program s).state.errors = []) : (program s).state.tokens = [] := by
  obtain ⟨taken, htaken⟩ : (program s).state.tokens <:+ s.tokens :=
    progress_tokens.congruence.program s
  exact tokens_eq_nil_of_eof (htaken.symm ▸ hlexed : Lexed (taken ++ _)).behind (next_program s h)

/-- Reading a text ends on the level of nesting where it starts, and never goes below the last level.
How often it goes deeper is bounded by the length of the text. If a check fails, there is an error in the
end, and only then; and there is one if tokens are left over. -/
theorem program_counts (text : String) :
    let s := (program { source := text.toList, tokens := tokenize text.toList, errors := [] }).state
    s.counters.depth = 0 ∧ s.counters.deepest ≤ maxNesting ∧
      s.counters.entered ≤ 3 * text.length + 1 ∧
      (s.counters.missed ≠ 0 ↔ (Expr.read text).2 ≠ []) ∧
      (s.tokens ≠ [] → (Expr.read text).2 ≠ []) := by
  intro s
  let start : ParserState :=
    { source := text.toList, tokens := tokenize text.toList, errors := [] }
  have hcounted : Counted maxNesting start s := progress_counted.congruence.program start
  have hentered : s.counters.entered ≤ 0 + 3 * (tokenize text.toList).length + 1 :=
    (settles_program start).entered
  have hlength : (tokenize text.toList).length ≤ text.length := by
    rw [← String.length_toList]
    exact Cursor.length_tokens_le text.toList 0
  have hmissed : s.counters.missed = 0 ↔ s.errors = [] := hcounted.missed (iff_of_true rfl rfl)
  have hread : (Expr.read text).2 = [] ↔ s.errors = [] := List.reverse_eq_nil_iff
  have hleft : s.errors = [] → s.tokens = [] := tokens_program ⟨Cursor.start text.toList, rfl⟩
  refine ⟨hcounted.depth, ?_, by omega, not_congr (hmissed.trans hread.symm),
    mt fun h => hleft (hread.mp h)⟩
  have hdeepest : s.counters.deepest ≤ max 0 (0 + maxNesting) := hcounted.deepest
  rwa [Nat.zero_add, Nat.max_eq_right (Nat.zero_le _)] at hdeepest

/-- Two groups and what is in them are one level each; the parenthesis that is missing is counted. -/
example :
    let text := "((1)".toList
    let c := (program { source := text, tokens := tokenize text, errors := [] }).state.counters
    c.depth = 0 ∧ c.deepest = 3 ∧ c.entered = 3 ∧ c.missed = 1 := by
  decide +kernel

end TreeQuery.Parser
