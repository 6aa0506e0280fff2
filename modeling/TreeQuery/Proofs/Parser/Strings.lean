import TreeQuery.Proofs.Parser.Precedence
import TreeQuery.Proofs.Token.Gaps
import TreeQuery.Proofs.Token.Nested

/-!
# Strings and what they are written as

A text in quotes, with those inside it doubled, is one string whatever follows it, unless that starts with
the same quote. No other text is a string, so a string can be written again as it was from what it stands
for.
-/

namespace TreeQuery

variable {q : Char} {cs : List Char}

/-- What is scanned as a string is a text with its quotes doubled, up to the quote that closes it. -/
theorem exists_double_of_scanString {n : Nat} (h : scanString q cs = some n) :
    ∃ inside, cs.take n = Text.double q inside ++ [q] := by
  fun_induction scanString q cs generalizing n with
  | case1 => contradiction
  | case2 ds ih =>
    -- A doubled quote stands for one.
    obtain ⟨m, hm, rfl⟩ := Option.map_eq_some_iff.mp h
    obtain ⟨inside, htake⟩ := ih hm
    exact ⟨q :: inside, by simp [Text.double, htake]⟩
  | case3 d ds hd =>
    obtain rfl := Option.some.inj h
    exact ⟨[], rfl⟩
  | case4 =>
    obtain rfl := Option.some.inj h
    exact ⟨[], rfl⟩
  | case5 c cs hc ih =>
    obtain ⟨m, hm, rfl⟩ := Option.map_eq_some_iff.mp h
    obtain ⟨inside, htake⟩ := ih hm
    exact ⟨c :: inside, by simp [Text.double, hc, htake]⟩

/-- A string starts with its quote. -/
theorem exists_quote_of_lexeme (h : (lexeme cs).1 = .string) :
    ∃ q inside, (q = '\x22' ∨ q = '\x27') ∧ cs.take (lexeme cs).2 = Text.quote q inside := by
  cases cs with
  | nil => contradiction
  | cons c cs =>
    have hsymbols : ∀ s ∈ symbols, s.2 ≠ .string := by decide
    rcases lexeme_view c cs with ⟨-, hkind⟩ | ⟨hquote, -⟩ | ⟨name, rest, -, hlexeme⟩ |
      ⟨-, ⟨s, hs, -, hlexeme⟩ | ⟨-, hkind⟩⟩
    · rw [h] at hkind
      exact absurd hkind (by decide)
    · have hq : c = '\x22' ∨ c = '\x27' := by simpa using hquote
      rw [lexeme_quote hq] at h ⊢
      cases hscan : scanString c cs with
      | none =>
        rw [hscan] at h
        contradiction
      | some n =>
        obtain ⟨inside, htake⟩ := exists_double_of_scanString hscan
        exact ⟨c, inside, hq, by rw [List.take_succ_cons, htake, Text.quote, List.cons_append]⟩
    · rw [hlexeme] at h
      contradiction
    · rw [hlexeme] at h
      exact absurd h (hsymbols s hs)
    · rw [h] at hkind
      contradiction

/-- Every string of a text is a text in quotes. -/
theorem exists_quote_of_mem_tokens (cs : List Char) (offset : Nat) :
    ∀ t ∈ (Cursor.mk cs offset).tokens, t.kind = .string →
      ∃ q inside, (q = '\x22' ∨ q = '\x27') ∧ t.text.toList = Text.quote q inside := by
  induction cs using token_induction generalizing offset with
  | eof cs h =>
    rw [Cursor.tokens_of_eof h]
    exact nofun
  | token cs h ih =>
    rw [Cursor.tokens_of_not_eof h, List.forall_mem_cons]
    refine ⟨fun hkind => ?_, ih _⟩
    obtain ⟨q, inside, hq, htake⟩ := exists_quote_of_lexeme hkind
    exact ⟨q, inside, hq, by rw [nextText, String.toList_ofList, htake]⟩

/-- A token in front of which nothing is taken off. -/
theorem Cursor.next_of_starts {kind : TokenKind} {text : String} {rest : List Char}
    (h : Starts cs kind text rest) (htrivia : splitTrivia cs = ([], cs)) (offset : Nat) :
    (Cursor.mk cs offset).next =
      ({ kind, text, offset, spaced := offset == 0 }, ⟨rest, offset + byteLength text.toList⟩) := by
  obtain ⟨rfl, rfl, rfl⟩ := h
  rw [nextKind, nextText, afterToken, String.toList_ofList, Cursor.next, htrivia]
  rfl

/-- A text in quotes is one token, and the rest of the text is left behind it. -/
theorem Cursor.next_quote (hq : q = '\x22' ∨ q = '\x27') (inside : List Char) {rest : List Char}
    (hrest : rest.head? ≠ some q) (offset : Nat) :
    (Cursor.mk (Text.quote q inside ++ rest) offset).next =
      ({ kind := .string, text := String.ofList (Text.quote q inside), offset, spaced := offset == 0 },
        ⟨rest, offset + byteLength (Text.quote q inside)⟩) := by
  have hmark : Text.isBlank q = false ∧ q ≠ '(' := by
    rcases hq with rfl | rfl <;> decide
  have htrivia : splitTrivia (Text.quote q inside ++ rest) = ([], Text.quote q inside ++ rest) :=
    splitTrivia_token hmark.1 (Or.inl hmark.2)
  rw [next_of_starts (starts_quote hq inside hrest) htrivia, String.toList_ofList]

open TreeQuery.Parser in
/-- A text in quotes is read as that text. -/
theorem Expr.read_quote (hq : q = '\x22' ∨ q = '\x27') (s : String) :
    Expr.read (String.ofList (Text.quote q s.toList)) = (.literal (.string s), []) := by
  have hrest : ([] : List Char).head? ≠ some q := nofun
  have hkind := (starts_quote hq s.toList hrest).kind
  rw [List.append_nil] at hkind
  have hsingle : Reads True (single (operandAt maxNesting)) (Text.quote q s.toList ++ [])
      (.literal (.string s)) [] :=
    (reads_operandAt (reads_quote s hq hrest) (reads_climb_stop (stops_of_kind (by decide)))).congr
      (and_iff_right trivial)
  rw [List.append_nil] at hsingle
  exact read_of_single (by rw [hkind]; decide) hsingle

/-- A text in quotes is one string, in front of all that does not start with the quote. It stands for the
text, and is read as that. Every string is such a text, and so it is what it stands for in quotes again. -/
theorem strings_round_trip :
    (∀ q, q = '\x22' ∨ q = '\x27' → ∀ s : String,
      let literal := Text.quote q s.toList
      let token (offset : Nat) : Token :=
        { kind := .string, text := String.ofList literal, offset, spaced := offset == 0 }
      tokenize literal = [token 0] ∧
      (∀ rest offset, rest.head? ≠ some q →
        (Cursor.mk (literal ++ rest) offset).next =
          (token offset, ⟨rest, offset + byteLength literal⟩)) ∧
      Text.unquote literal = s.toList ∧
      Expr.read (String.ofList literal) = (.literal (.string s), [])) ∧
    ∀ source, ∀ t ∈ tokenize source, t.kind = .string →
      ∃ q, (q = '\x22' ∨ q = '\x27') ∧ t.text.toList.head? = some q ∧
        Text.quote q (Text.unquote t.text.toList) = t.text.toList := by
  have hsize {q : Char} (hq : q = '\x22' ∨ q = '\x27') : q.utf8Size = 1 := by
    rcases hq with rfl | rfl <;> decide
  constructor
  · intro q hq s literal token
    refine ⟨?_, fun rest offset hrest => Cursor.next_quote hq _ hrest offset,
      Text.unquote_quote (hsize hq) _, Expr.read_quote hq s⟩
    have hend : ([] : List Char).head? ≠ some q := nofun
    have hnext := Cursor.next_quote hq s.toList hend 0
    rw [List.append_nil] at hnext
    rw [tokenize, Cursor.start, Cursor.tokens, hnext,
      dif_neg (show TokenKind.string ≠ .eof by decide)]
    exact congrArg _ (Cursor.tokens_of_eof rfl _)
  · intro source t ht hkind
    obtain ⟨q, inside, hq, htext⟩ := exists_quote_of_mem_tokens source 0 t ht hkind
    exact ⟨q, hq, by rw [htext]; rfl, by rw [htext, Text.unquote_quote (hsize hq)]⟩

/-- An apostrophe at the end, in front of a word, and a string behind a comment. -/
theorem strings_round_trip_apostrophe :
    ((Cursor.start "'so''' or 1".toList).next.2.rest = " or 1".toList ∧
        Text.unquote "'so'''".toList = "so'".toList ∧
        Expr.read "'so'''" = (.literal (.string "so'"), [])) ∧
      ∃ t ∈ tokenize "(: ' :) 'so'''".toList, ∃ q, t.text.toList.head? = some q ∧
        Text.quote q (Text.unquote t.text.toList) = t.text.toList := by
  obtain ⟨hliteral, hstring⟩ := strings_round_trip
  constructor
  · obtain ⟨-, hnext, hunquote, hread⟩ := hliteral '\x27' (Or.inr rfl) "so'"
    exact ⟨congrArg (fun found => found.2.rest) (hnext " or 1".toList 0 (by decide)), hunquote, hread⟩
  · have hmem : { kind := .string, text := "'so'''", offset := 8, spaced := true } ∈
        tokenize "(: ' :) 'so'''".toList := by
      decide +kernel
    obtain ⟨q, -, hquote⟩ := hstring _ _ hmem rfl
    exact ⟨_, hmem, q, hquote⟩

end TreeQuery
