import TreeQuery.Expr.Parser
import TreeQuery.Proofs.Token.Next

/-!
# Where a parser stands

A parser that has noted no error stands in front of some rest of its source. What it can see of the
tokens ahead is what it would see in the rest alone, except whether the first of them is spaced,
which no parser asks.
-/

namespace TreeQuery

open TreeQuery.Parser

/-- Tokens with another mark for blanks in front of the first one. -/
def respaced (spaced : Bool) : List Token → List Token
  | [] => []
  | t :: ts => { t with spaced } :: ts

/-- Tokens have the spacing that they have. -/
theorem exists_respaced (ts : List Token) : ∃ spaced, ts = respaced spaced ts := by
  cases ts with
  | nil => exact ⟨false, rfl⟩
  | cons t ts => exact ⟨t.spaced, rfl⟩

/-- A state in front of the text `cs`, without errors. -/
structure ParserState.At (s : ParserState) (cs : List Char) : Prop where
  /-- Nothing was missed. -/
  errors : s.errors = []
  /-- The tokens are those of the text, behind all that has been read. -/
  place : ∃ before spaced, s.source = before ++ cs ∧
    s.tokens = respaced spaced (Cursor.mk cs (byteLength before)).tokens

/-- The text from a place on is what stands behind the text in front of it. -/
theorem textFrom_append (before cs : List Char) : textFrom (byteLength before) (before ++ cs) = cs := by
  induction before with
  | nil => cases cs <;> rfl
  | cons c before ih =>
    have hc := c.utf8Size_pos
    rw [byteLength_cons, List.cons_append, textFrom, if_neg (by omega), Nat.add_sub_cancel_left, ih]

namespace ParserState.At

variable {s : ParserState} {cs : List Char}

/-- The state in which a text is read from its start. -/
theorem start (cs : List Char) : At { source := cs, tokens := tokenize cs, errors := [] } cs := by
  obtain ⟨spaced, h⟩ := exists_respaced (tokenize cs)
  exact ⟨rfl, [], spaced, rfl, h⟩

/-- The counts do not matter. -/
theorem withCounters (h : At s cs) (counters : Counters) : At { s with counters } cs :=
  ⟨h.errors, h.place⟩

/-- A blank can be passed over. -/
theorem blank (h : At s (' ' :: cs)) : At s cs := by
  obtain ⟨herrors, before, spaced, hsource, htokens⟩ := h
  refine ⟨herrors, before ++ [' '], spaced, by rw [hsource, List.append_assoc]; rfl, ?_⟩
  have hblank : Text.isBlank ' ' = true := by decide
  rw [htokens]
  by_cases heof : nextKind cs = .eof
  · rw [Cursor.tokens_of_eof heof, Cursor.tokens_of_eof ((nextKind_blank cs).trans heof)]
  · have heof' : nextKind (' ' :: cs) ≠ .eof := fun h => heof ((nextKind_blank cs).symm.trans h)
    have hconsumed : Cursor.consumed (' ' :: cs) = ' ' :: Cursor.consumed cs := by
      simp only [Cursor.consumed, splitTrivia_blank hblank, List.cons_append]
    rw [Cursor.tokens_of_not_eof heof, Cursor.tokens_of_not_eof heof', hconsumed]
    simp only [respaced, nextKind_blank, nextText_blank, afterToken_blank, byteLength_append,
      byteLength_cons, byteLength_nil, splitTrivia_blank hblank, Nat.add_assoc, Nat.zero_add]

/-- The next token is the first one of the text. -/
theorem head (h : At s cs) :
    (s.tokens.headD (endToken s)).kind = nextKind cs ∧
      (s.tokens.headD (endToken s)).text = nextText cs := by
  obtain ⟨-, before, spaced, -, htokens⟩ := h
  rw [htokens]
  by_cases heof : nextKind cs = .eof
  · rw [Cursor.tokens_of_eof heof, heof, (nextText_of_eof heof).1]
    exact ⟨rfl, rfl⟩
  · rw [Cursor.tokens_of_not_eof heof]
    exact ⟨rfl, rfl⟩

/-- In front of the end there is a next token. -/
theorem exists_cons (h : At s cs) (heof : nextKind cs ≠ .eof) :
    ∃ t ts, s.tokens = t :: ts ∧ t.kind = nextKind cs ∧ t.text = nextText cs := by
  obtain ⟨hkind, htext⟩ := h.head
  cases htokens : s.tokens with
  | nil =>
    rw [htokens] at hkind
    exact absurd hkind.symm heof
  | cons t ts =>
    rw [htokens] at hkind htext
    exact ⟨t, ts, rfl, hkind, htext⟩

/-- Behind the first token the parser stands in front of what is left of the text. The tokens there
are marked for blanks as the text has them. -/
theorem behind (h : At s cs) :
    ∃ before, s.source = before ++ afterToken cs ∧ (nextKind cs ≠ .eof → 0 < byteLength before) ∧
      s.tokens.tail = (Cursor.mk (afterToken cs) (byteLength before)).tokens := by
  obtain ⟨-, before, spaced, hsource, htokens⟩ := h
  by_cases heof : nextKind cs = .eof
  · refine ⟨before ++ cs, ?_, fun hne => absurd heof hne, ?_⟩
    · rw [(nextText_of_eof heof).2, List.append_nil, hsource]
    · rw [htokens, Cursor.tokens_of_eof heof, (nextText_of_eof heof).2,
        Cursor.tokens_of_eof (show nextKind [] = .eof from rfl)]
      rfl
  · refine ⟨before ++ Cursor.consumed cs, ?_, fun hne => ?_, ?_⟩
    · rw [List.append_assoc, Cursor.consumed_append, hsource]
    · rw [byteLength_append]
      exact Nat.lt_add_left _ (Cursor.byteLength_consumed_pos hne)
    · rw [htokens, Cursor.tokens_of_not_eof heof, byteLength_append]
      rfl

/-- Behind a token the parser is at the text behind it. -/
theorem tail (h : At s cs) : At { s with tokens := s.tokens.tail } (afterToken cs) := by
  obtain ⟨before, hsource, -, htokens⟩ := h.behind
  obtain ⟨spaced, hspaced⟩ := exists_respaced s.tokens.tail
  exact ⟨h.errors, before, spaced, hsource, by rw [← htokens]; exact hspaced⟩

/-- The token behind the next one. -/
theorem following (h : At s cs) :
    (s.tokens.tail.headD (endToken s)).kind = nextKind (afterToken cs) := h.tail.head.1

/-- The source behind the next token is what is left of the text. -/
theorem textFrom_head (h : At s cs) (heof : nextKind cs ≠ .eof) :
    textFrom ((s.tokens.headD (endToken s)).offset +
      (s.tokens.headD (endToken s)).text.utf8ByteSize) s.source = afterToken cs := by
  obtain ⟨-, before, spaced, hsource, htokens⟩ := h
  have hoffset : byteLength before + byteLength (splitTrivia cs).1 + (nextText cs).utf8ByteSize =
      byteLength (before ++ Cursor.consumed cs) := by
    rw [nextText, utf8ByteSize_ofList, Cursor.consumed, byteLength_append, byteLength_append,
      Nat.add_assoc]
  rw [htokens, Cursor.tokens_of_not_eof heof, hsource]
  change textFrom (byteLength before + byteLength (splitTrivia cs).1 + (nextText cs).utf8ByteSize)
    (before ++ cs) = afterToken cs
  have hcs : before ++ cs = before ++ Cursor.consumed cs ++ afterToken cs := by
    rw [List.append_assoc, Cursor.consumed_append]
  rw [hoffset, hcs, textFrom_append]

end ParserState.At

end TreeQuery
