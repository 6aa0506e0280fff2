import TreeQuery.Token.Scan

/-!
# The next token of a text

A token is found by looking at the text alone; how much stands in front of it only tells its offset.
`Starts` says which token comes first in a text and what is left behind it. For operators and
brackets this is a computation; names, numerals and strings need to know what follows them.
-/

namespace TreeQuery

/-- The kind of the token that comes first in a text. -/
def nextKind (cs : List Char) : TokenKind := (lexeme (splitTrivia cs).2).1

/-- The text of the token that comes first in a text. -/
def nextText (cs : List Char) : String :=
  String.ofList ((splitTrivia cs).2.take (lexeme (splitTrivia cs).2).2)

/-- What is left of a text behind the token that comes first. -/
def afterToken (cs : List Char) : List Char :=
  (splitTrivia cs).2.drop (lexeme (splitTrivia cs).2).2

/-- A text starts with a token, behind blanks maybe, and goes on with `rest`. -/
structure Starts (cs : List Char) (kind : TokenKind) (text : String) (rest : List Char) : Prop where
  kind : nextKind cs = kind
  text : nextText cs = text
  rest : afterToken cs = rest

/-! ### Tokens of a text -/

theorem byteLength_cons (c : Char) (cs : List Char) :
    byteLength (c :: cs) = c.utf8Size + byteLength cs := by
  have hfrom (n : Nat) (cs : List Char) :
      cs.foldl (fun n c => n + c.utf8Size) n = n + byteLength cs := by
    induction cs generalizing n with
    | nil => rfl
    | cons c cs ih =>
      rw [byteLength, List.foldl_cons, List.foldl_cons, ih, ih (0 + _)]
      omega
  rw [byteLength, List.foldl_cons, hfrom]
  omega

@[simp] theorem byteLength_append (cs ds : List Char) :
    byteLength (cs ++ ds) = byteLength cs + byteLength ds := by
  induction cs with
  | nil => simp [byteLength]
  | cons c cs ih =>
    rw [List.cons_append, byteLength_cons, byteLength_cons, ih]
    omega

@[simp] theorem byteLength_nil : byteLength [] = 0 := rfl

theorem byteLength_eq_zero {cs : List Char} : byteLength cs = 0 ↔ cs = [] := by
  constructor
  · intro h
    cases cs with
    | nil => rfl
    | cons c cs =>
      have hc := c.utf8Size_pos
      rw [byteLength_cons] at h
      omega
  · rintro rfl
    rfl

/-- A text takes as many bytes as its characters. -/
theorem utf8ByteSize_ofList (cs : List Char) : (String.ofList cs).utf8ByteSize = byteLength cs := by
  induction cs with
  | nil => rfl
  | cons c cs ih =>
    rw [byteLength_cons, ← ih, ← List.singleton_append, String.ofList_append,
      String.utf8ByteSize_append]
    simp

/-- Only an empty text has its end as the first token. -/
theorem lexeme_kind_eq_eof {cs : List Char} : (lexeme cs).1 = .eof ↔ cs = [] := by
  constructor
  · intro h
    cases cs with
    | nil => rfl
    | cons c cs =>
      have hsymbols : ∀ s ∈ symbols, s.2 ≠ .eof := by decide
      simp only [lexeme, scanNumeral] at h
      split at h
      · split at h
        · contradiction
        · split at h <;> contradiction
      · split at h
        · split at h <;> contradiction
        · split at h
          · contradiction
          · split at h
            · next hf => exact absurd h (hsymbols _ (List.mem_of_find?_eq_some hf))
            · contradiction
  · rintro rfl
    rfl

/-- The end has no text, and nothing is behind it. -/
theorem nextText_of_eof {cs : List Char} (h : nextKind cs = .eof) :
    nextText cs = "" ∧ afterToken cs = [] := by
  have hnil : (splitTrivia cs).2 = [] := lexeme_kind_eq_eof.mp h
  simp [nextText, afterToken, hnil]

namespace Cursor

/-- Blanks and the first token, which lie between a text and what is left of it behind the token. -/
def consumed (cs : List Char) : List Char :=
  (splitTrivia cs).1 ++ (splitTrivia cs).2.take (lexeme (splitTrivia cs).2).2

/-- A text is its first token, with the blanks in front, and what is behind it. -/
theorem consumed_append (cs : List Char) : consumed cs ++ afterToken cs = cs := by
  rw [consumed, afterToken, List.append_assoc, List.take_append_drop, splitTrivia,
    append_splitTriviaFrom]

/-- A token takes up space. -/
theorem byteLength_lt_consumed {cs : List Char} (h : nextKind cs ≠ .eof) :
    byteLength (splitTrivia cs).1 < byteLength (consumed cs) := by
  have hne : (splitTrivia cs).2 ≠ [] := fun hnil => h (lexeme_kind_eq_eof.mpr hnil)
  obtain ⟨c, ds, hcs⟩ := List.exists_cons_of_ne_nil hne
  obtain ⟨n, hn⟩ := Nat.exists_eq_add_of_le' (lexeme_pos c ds)
  rw [consumed, hcs, hn, List.take_succ_cons, byteLength_append, byteLength_cons]
  have hc := c.utf8Size_pos
  omega

/-- Every other token takes at least a byte. -/
theorem byteLength_consumed_pos {cs : List Char} (h : nextKind cs ≠ .eof) :
    0 < byteLength (consumed cs) := Nat.zero_lt_of_lt (byteLength_lt_consumed h)

/-- At the end of a text there are no tokens. -/
theorem tokens_of_eof {cs : List Char} (h : nextKind cs = .eof) (offset : Nat) :
    (Cursor.mk cs offset).tokens = [] := by
  have hnext : (Cursor.mk cs offset).next.1.kind = .eof := h
  rw [Cursor.tokens, dif_pos hnext]

/-- The tokens of a text are its first one and those of the text behind it. -/
theorem tokens_of_not_eof {cs : List Char} (h : nextKind cs ≠ .eof) (offset : Nat) :
    (Cursor.mk cs offset).tokens =
      { kind := nextKind cs
        text := nextText cs
        offset := offset + byteLength (splitTrivia cs).1
        spaced := !(splitTrivia cs).1.isEmpty || offset + byteLength (splitTrivia cs).1 == 0 } ::
        (Cursor.mk (afterToken cs) (offset + byteLength (consumed cs))).tokens := by
  have hnext : (Cursor.mk cs offset).next.1.kind ≠ .eof := h
  rw [Cursor.tokens, dif_neg hnext]
  simp only [consumed, byteLength_append, ← Nat.add_assoc]
  rfl

end Cursor

/-! ### Blanks -/

/-- Outside comments a character is a blank or starts a token, unless it opens a comment. -/
theorem splitTriviaFrom_cons {c : Char} {cs : List Char} (h : c ≠ '(' ∨ cs.head? ≠ some ':') :
    splitTriviaFrom 0 (c :: cs) =
      if Text.isBlank c then (splitTriviaFrom 0 cs).map (c :: ·) id else ([], c :: cs) := by
  rw [splitTriviaFrom.eq_def]
  split
  · next hcons =>
    obtain ⟨rfl, rfl⟩ := List.cons.inj hcons
    exact (h.elim (fun h => h rfl) fun h => h rfl).elim
  · next hcons =>
    obtain ⟨rfl, rfl⟩ := List.cons.inj hcons
    rfl
  · contradiction
  · contradiction
  · contradiction

/-- A comment is opened among the blanks. -/
theorem splitTriviaFrom_open (comments : Nat) (cs : List Char) :
    splitTriviaFrom comments ('(' :: ':' :: cs) =
      (splitTriviaFrom (comments + 1) cs).map ('(' :: ':' :: ·) id := by
  cases comments <;> rfl

/-- A comment is closed. -/
theorem splitTriviaFrom_close (comments : Nat) (cs : List Char) :
    splitTriviaFrom (comments + 1) (':' :: ')' :: cs) =
      (splitTriviaFrom comments cs).map (':' :: ')' :: ·) id := rfl

/-- Inside a comment that is neither opened again nor closed every character is taken off. -/
theorem splitTriviaFrom_inside (comments : Nat) {c : Char} {cs : List Char}
    (hopen : c = '(' → cs.head? ≠ some ':') (hclose : c = ':' → cs.head? ≠ some ')') :
    splitTriviaFrom (comments + 1) (c :: cs) = (splitTriviaFrom (comments + 1) cs).map (c :: ·) id := by
  rw [splitTriviaFrom.eq_def]
  split
  · next hcons =>
    obtain ⟨rfl, rfl⟩ := List.cons.inj hcons
    exact absurd rfl (hopen rfl)
  · contradiction
  · next hcons =>
    obtain ⟨rfl, rfl⟩ := List.cons.inj hcons
    exact absurd rfl (hclose rfl)
  · next heq hcons =>
    obtain rfl := Nat.succ.inj heq
    obtain ⟨rfl, rfl⟩ := List.cons.inj hcons
    rfl
  · contradiction

/-- A blank is one of the blanks in front of a token. -/
theorem splitTrivia_blank {c : Char} (h : Text.isBlank c = true) (cs : List Char) :
    splitTrivia (c :: cs) = (c :: (splitTrivia cs).1, (splitTrivia cs).2) := by
  have hc : c ≠ '(' := by
    rintro rfl
    exact absurd h (by decide)
  rw [splitTrivia, splitTriviaFrom_cons (Or.inl hc), if_pos h]
  rfl

/-- A text that does not start with a blank or a comment starts with a token. -/
theorem splitTrivia_token {c : Char} {cs : List Char} (hblank : Text.isBlank c = false)
    (hcomment : c ≠ '(' ∨ cs.head? ≠ some ':') : splitTrivia (c :: cs) = ([], c :: cs) := by
  rw [splitTrivia, splitTriviaFrom_cons hcomment, hblank]
  rfl

/-- Blanks and comments are taken off as far as they go. -/
theorem splitTrivia_splitTriviaFrom (comments : Nat) (cs : List Char) :
    splitTrivia (splitTriviaFrom comments cs).2 = ([], (splitTriviaFrom comments cs).2) := by
  fun_induction splitTriviaFrom comments cs with
  | case1 _ _ ih | case2 _ _ _ _ ih | case4 _ _ ih | case5 _ _ _ _ _ ih => exact ih
  | case3 c cs hopen hblank =>
    refine splitTrivia_token (Bool.not_eq_true _ ▸ hblank) ?_
    by_cases hc : c = '('
    · refine Or.inr fun hhead => ?_
      obtain ⟨ds, rfl⟩ := List.head?_eq_some_iff.mp hhead
      exact hopen ds hc rfl
    · exact Or.inl hc
  | case6 => rfl

/-- A text from which nothing is taken off starts with a token. -/
theorem token_of_splitTrivia {c : Char} {cs : List Char} (h : splitTrivia (c :: cs) = ([], c :: cs)) :
    Text.isBlank c = false ∧ (c ≠ '(' ∨ cs.head? ≠ some ':') := by
  constructor
  · refine Bool.eq_false_iff.mpr fun hblank => ?_
    rw [splitTrivia_blank hblank] at h
    exact List.cons_ne_nil _ _ (congrArg Prod.fst h)
  · by_cases hc : c = '('
    · subst hc
      refine Or.inr fun hhead => ?_
      obtain ⟨ds, rfl⟩ := List.head?_eq_some_iff.mp hhead
      rw [splitTrivia, splitTriviaFrom_open] at h
      exact List.cons_ne_nil _ _ (congrArg Prod.fst h)
    · exact Or.inl hc

/-- Behind the blanks there are none. -/
theorem splitTrivia_splitTrivia (cs : List Char) :
    splitTrivia (splitTrivia cs).2 = ([], (splitTrivia cs).2) := splitTrivia_splitTriviaFrom 0 cs

/-- The blanks and what is behind them are the text. -/
theorem append_splitTrivia (cs : List Char) : (splitTrivia cs).1 ++ (splitTrivia cs).2 = cs :=
  append_splitTriviaFrom 0 cs

/-- Behind the blanks there is neither another one nor a comment. -/
theorem token_of_splitTrivia_eq {cs ds : List Char} {c : Char} (h : (splitTrivia cs).2 = c :: ds) :
    Text.isBlank c = false ∧ (c ≠ '(' ∨ ds.head? ≠ some ':') := by
  have hidem := splitTrivia_splitTrivia cs
  rw [h] at hidem
  exact token_of_splitTrivia hidem

/-- A blank in front makes no difference to the kind of a token. -/
theorem nextKind_blank (cs : List Char) : nextKind (' ' :: cs) = nextKind cs := by
  rw [nextKind, splitTrivia_blank (by decide), nextKind]

/-- It makes none to its text. -/
theorem nextText_blank (cs : List Char) : nextText (' ' :: cs) = nextText cs := by
  rw [nextText, splitTrivia_blank (by decide), nextText]

/-- It makes none to what is behind it. -/
theorem afterToken_blank (cs : List Char) : afterToken (' ' :: cs) = afterToken cs := by
  rw [afterToken, splitTrivia_blank (by decide), afterToken]

/-- A text starts with a token if it does behind a blank. -/
theorem Starts.blank {cs : List Char} {kind : TokenKind} {text : String} {rest : List Char}
    (h : Starts cs kind text rest) : Starts (' ' :: cs) kind text rest :=
  ⟨(nextKind_blank cs).trans h.kind, (nextText_blank cs).trans h.text,
    (afterToken_blank cs).trans h.rest⟩

/-- A token that is found at the very start of a text. -/
theorem starts_of_lexeme {c : Char} {cs rest : List Char} {kind : TokenKind}
    (hblank : Text.isBlank c = false) (hcomment : c ≠ '(' ∨ (cs ++ rest).head? ≠ some ':')
    (h : lexeme (c :: cs ++ rest) = (kind, (c :: cs).length)) :
    Starts (c :: cs ++ rest) kind (String.ofList (c :: cs)) rest := by
  have ht : splitTrivia (c :: cs ++ rest) = ([], c :: cs ++ rest) :=
    splitTrivia_token hblank hcomment
  constructor
  · rw [nextKind, ht, h]
  · rw [nextText, ht, h, List.take_left']
    rfl
  · rw [afterToken, ht, h, List.drop_left']
    rfl

/-- Characters that are tokens whatever follows them. -/
def marks : List (Char × TokenKind) := [
  (')', .rightParen), ('[', .leftBracket), (']', .rightBracket), ('\x7b', .leftBrace),
  ('\x7d', .rightBrace), (',', .comma), ('$', .dollar), ('@', .at), ('?', .question), ('#', .hash),
  ('+', .plus), ('-', .minus), ('*', .star)]

/-- A mark of one character is a token. -/
theorem starts_mark {c : Char} {kind : TokenKind} (h : marks.lookup c = some kind)
    (rest : List Char) : Starts (c :: rest) kind (String.ofList [c]) rest := by
  have hmem : (c, kind) ∈ marks := by
    obtain ⟨_, _, heq, -⟩ := List.lookup_eq_some_iff.mp h
    simp [heq]
  simp only [marks, List.mem_cons, Prod.mk.injEq, List.not_mem_nil, or_false] at hmem
  rcases hmem with h | h | h | h | h | h | h | h | h | h | h | h | h <;>
    obtain ⟨rfl, rfl⟩ := h <;> exact ⟨rfl, rfl, rfl⟩

end TreeQuery
