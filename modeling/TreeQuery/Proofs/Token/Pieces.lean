import TreeQuery.Proofs.Token.Gaps

/-!
# The pieces of a text

Tokens are read from a text one after another until its end is reached. With the gaps in front of them,
and the one behind the last, they make up the text again: nothing is lost, and nothing is read twice.
-/

namespace TreeQuery

/-- Closes so many comments. The blanks keep the text in front from running into the marks. -/
def closeComments : Nat → List Char
  | 0 => []
  | comments + 1 => ' ' :: ':' :: ')' :: closeComments comments

/-- The tokens with a number less than `k`, each behind its gap. -/
def piecesBefore (token : Nat → Token) (gap : Nat → List Char) (k : Nat) : List Char :=
  (List.range k).flatMap fun i => gap i ++ (token i).text.toList

/-- A text is cut into `count` tokens, the gaps in front of them, and one more gap behind the last of them.
From there on the token is the end of the text. -/
structure Pieces (text : List Char) (token : Nat → Token) (gap : Nat → List Char) (count : Nat) :
    Prop where
  /-- The end of the text comes behind so many tokens, and from there on again and again. -/
  kind_eq_eof : ∀ k, (token k).kind = .eof ↔ count ≤ k
  /-- Only the end of the text is empty. -/
  text_eq_empty : ∀ k, (token k).text = "" ↔ count ≤ k
  /-- Gaps and tokens make up the text. -/
  whole : ∀ k, count ≤ k → piecesBefore token gap k ++ gap k = text
  /-- A token is a piece of the text, -/
  slice : ∀ k, piecesBefore token gap k ++ gap k ++ (token k).text.toList <+: text
  /-- and its offset tells where that piece begins. -/
  offset : ∀ k, (token k).offset = byteLength (piecesBefore token gap k ++ gap k)
  /-- In front of a token there are blanks and comments that are closed. -/
  closed : ∀ k, k < count → isGapFrom 0 (gap k) = true
  /-- In front of the end there are blanks and comments, of which the last may have been left open. -/
  last : ∃ comments, isGapFrom 0 (gap count ++ closeComments comments) = true
  /-- A token is spaced if its gap is not empty or if it stands at the start of the text. -/
  spaced : ∀ k, (token k).spaced = true ↔ gap k ≠ [] ∨ (token k).offset = 0

/-! ### What is taken off in front of a token -/

private theorem isGapFrom_open (comments : Nat) (cs : List Char) :
    isGapFrom comments ('(' :: ':' :: cs) = isGapFrom (comments + 1) cs := by
  cases comments <;> rfl

private theorem isGapFrom_inside (comments : Nat) {c : Char} {cs : List Char}
    (hopen : c = '(' → cs.head? ≠ some ':') (hclose : c = ':' → cs.head? ≠ some ')') :
    isGapFrom (comments + 1) (c :: cs) = isGapFrom (comments + 1) cs := by
  rw [isGapFrom.eq_def]
  split
  · next hcons =>
    obtain ⟨rfl, rfl⟩ := List.cons.inj hcons
    exact absurd rfl (hopen rfl)
  · contradiction
  · next hcons =>
    obtain ⟨rfl, rfl⟩ := List.cons.inj hcons
    exact absurd rfl (hclose rfl)
  · next heq hcons =>
    obtain rfl := Nat.succ.inj heq
    obtain ⟨rfl, rfl⟩ := List.cons.inj hcons
    rfl
  · contradiction

private theorem isGapFrom_blank {c : Char} (h : Text.isBlank c = true) (cs : List Char) :
    isGapFrom 0 (c :: cs) = isGapFrom 0 cs := by
  rw [isGapFrom.eq_def]
  split
  · next hcons =>
    obtain ⟨rfl, rfl⟩ := List.cons.inj hcons
    exact absurd h (by decide)
  · next hcons =>
    obtain ⟨rfl, rfl⟩ := List.cons.inj hcons
    rw [h, Bool.true_and]
  · contradiction
  · contradiction
  · contradiction

private theorem isGapFrom_closeComments (comments : Nat) :
    isGapFrom comments (closeComments comments) = true := by
  induction comments with
  | zero => rfl
  | succ comments ih => exact ih

/-- What is taken off a text inside a comment starts with the text, and what closes it with a blank. -/
theorem head_splitTriviaFrom_append (comments unclosed : Nat) (cs : List Char) {c : Char}
    (hc : c ≠ ' ')
    (h : ((splitTriviaFrom (comments + 1) cs).1 ++ closeComments unclosed).head? = some c) :
    cs.head? = some c := by
  cases cs with
  | nil =>
    cases unclosed with
    | zero => contradiction
    | succ unclosed => exact absurd (Option.some.inj h).symm hc
  | cons d ds =>
    have hhead := head_splitTriviaFrom_succ comments d ds
    rwa [List.head?_append, hhead] at h

/-- What is taken off a text is a gap once its comments are closed, and they are closed already if anything
is left behind them. -/
theorem isGapFrom_splitTriviaFrom (comments : Nat) (cs : List Char) :
    ∃ unclosed, isGapFrom comments ((splitTriviaFrom comments cs).1 ++ closeComments unclosed) = true ∧
      ((splitTriviaFrom comments cs).2 ≠ [] → unclosed = 0) := by
  fun_induction splitTriviaFrom comments cs with
  | case1 comments cs ih =>
    obtain ⟨unclosed, hgap, hleft⟩ := ih
    exact ⟨unclosed, (isGapFrom_open comments _).trans hgap, hleft⟩
  | case2 c cs hopen hblank ih =>
    obtain ⟨unclosed, hgap, hleft⟩ := ih
    exact ⟨unclosed, (isGapFrom_blank hblank _).trans hgap, hleft⟩
  | case3 c cs hopen hblank => exact ⟨0, rfl, fun _ => rfl⟩
  | case4 comments cs ih => exact ih
  | case5 comments c cs hopen hclose ih =>
    obtain ⟨unclosed, hgap, hleft⟩ := ih
    refine ⟨unclosed, (isGapFrom_inside comments (fun hc hhead => ?_) fun hc hhead => ?_).trans hgap,
      hleft⟩
    · obtain ⟨ds, rfl⟩ := List.head?_eq_some_iff.mp (head_splitTriviaFrom_append _ _ _ (by decide) hhead)
      exact hopen ds hc rfl
    · obtain ⟨ds, rfl⟩ := List.head?_eq_some_iff.mp (head_splitTriviaFrom_append _ _ _ (by decide) hhead)
      exact hclose ds hc rfl
  | case6 comments => exact ⟨comments, isGapFrom_closeComments comments, fun h => absurd rfl h⟩

/-! ### Steps -/

namespace Cursor

/-- The place behind so many tokens. -/
def skip (c : Cursor) : Nat → Cursor
  | 0 => c
  | k + 1 => (c.skip k).next.2

/-- The token with a number. All numbers that are too large are those of the end of the text. -/
def tokenAhead (c : Cursor) (k : Nat) : Token := (c.skip k).next.1

/-- The blanks and comments at a place. -/
def gap (c : Cursor) : List Char := (splitTrivia c.rest).1

/-- A step takes a gap and a token off the text, and keeps count of what it has taken. -/
theorem next_step (c : Cursor) :
    c.gap ++ c.next.1.text.toList ++ c.next.2.rest = c.rest ∧
      c.next.1.offset = c.offset + byteLength c.gap ∧
      c.next.2.offset = c.next.1.offset + byteLength c.next.1.text.toList := by
  have htext : c.next.1.text.toList = (splitTrivia c.rest).2.take (lexeme (splitTrivia c.rest).2).2 :=
    String.toList_ofList
  refine ⟨?_, rfl, ?_⟩
  · rw [htext]
    exact consumed_append c.rest
  · rw [htext]
    rfl

/-- The end of the text is the only empty token. -/
theorem text_next_eq_empty (c : Cursor) : c.next.1.text = "" ↔ c.next.1.kind = .eof := by
  change nextText c.rest = "" ↔ nextKind c.rest = .eof
  refine ⟨fun h => ?_, fun h => (nextText_of_eof h).1⟩
  by_contra hkind
  have hlt := byteLength_lt_consumed hkind
  rw [byteLength_consumed, h] at hlt
  exact absurd hlt (Nat.lt_irrefl _)

/-- Behind the next token the other ones follow. -/
theorem tokens_next (c : Cursor) : c.next.2.tokens = c.tokens.tail := by
  rw [Cursor.tokens.eq_def c]
  split
  · next heof =>
    have hrest : c.next.2.rest = [] := (nextText_of_eof heof).2
    exact tokens_of_eof (congrArg nextKind hrest) _
  · rfl

/-- At the end of the text there are no tokens. -/
theorem kind_next_eq_eof (c : Cursor) : c.next.1.kind = .eof ↔ c.tokens = [] := by
  rw [Cursor.tokens]
  split <;> simp_all

/-! ### Runs -/

private theorem tokens_skip (c : Cursor) (k : Nat) : (c.skip k).tokens = c.tokens.drop k := by
  induction k with
  | zero => rfl
  | succ k ih => rw [skip, tokens_next, ih, List.tail_drop]

/-- The end comes behind as many tokens as there are. -/
theorem kind_tokenAhead_eq_eof (c : Cursor) (k : Nat) :
    (c.tokenAhead k).kind = .eof ↔ c.tokens.length ≤ k := by
  rw [tokenAhead, kind_next_eq_eof, tokens_skip, List.drop_eq_nil_iff]

private theorem tokens_eq_map (c : Cursor) : c.tokens =
    (List.range c.tokens.length).map c.tokenAhead := by
  refine List.ext_getElem (by simp) fun k hk _ => ?_
  have hdrop := c.tokens_skip k
  rw [List.drop_eq_getElem_cons hk, Cursor.tokens] at hdrop
  split at hdrop
  · contradiction
  · rw [List.getElem_map, List.getElem_range]
    exact (List.cons.inj hdrop).1.symm

/-- What has been read behind so many tokens. -/
def read (c : Cursor) (k : Nat) : List Char := piecesBefore c.tokenAhead (fun i => (c.skip i).gap) k

private theorem read_succ (c : Cursor) (k : Nat) :
    c.read (k + 1) = c.read k ++ (c.skip k).gap ++ (c.tokenAhead k).text.toList := by
  simp only [read, piecesBefore, List.range_succ, List.flatMap_append, List.flatMap_singleton,
    List.append_assoc]

/-- What has been read and what is left make up the text, and the offset of the place is the length of
what has been read. -/
theorem read_append_rest (c : Cursor) (k : Nat) :
    c.read k ++ (c.skip k).rest = c.rest ∧ (c.skip k).offset = c.offset + byteLength (c.read k) := by
  induction k with
  | zero => exact ⟨rfl, rfl⟩
  | succ k ih =>
    obtain ⟨hrest, hoffset⟩ := ih
    obtain ⟨hpiece, hnext, hbehind⟩ := (c.skip k).next_step
    constructor
    · rw [read_succ, ← hrest, ← hpiece, List.append_assoc, List.append_assoc, List.append_assoc]
      rfl
    · rw [skip, hbehind, hnext, hoffset, read_succ, byteLength_append, byteLength_append, tokenAhead]
      omega

end Cursor

private theorem pieces_tokenize (text : List Char) :
    let c := Cursor.start text
    Pieces text c.tokenAhead (fun k => (c.skip k).gap) (tokenize text).length := by
  intro c
  have heof (k : Nat) : (c.tokenAhead k).kind = .eof ↔ (tokenize text).length ≤ k :=
    c.kind_tokenAhead_eq_eof k
  have hempty (k : Nat) : (c.tokenAhead k).text = "" ↔ (tokenize text).length ≤ k :=
    (c.skip k).text_next_eq_empty.trans (heof k)
  have hread (k : Nat) : c.read k ++ (c.skip k).gap ++ (c.tokenAhead k).text.toList ++
      (c.skip (k + 1)).rest = text := by
    rw [← Cursor.read_succ]
    exact (c.read_append_rest (k + 1)).1
  refine ⟨heof, hempty, fun k hk => ?_, fun k => ⟨_, hread k⟩, fun k => ?_, fun k hk => ?_, ?_,
    fun k => ?_⟩
  · have hrest : (c.skip (k + 1)).rest = [] := (nextText_of_eof ((heof k).mpr hk)).2
    have hwhole := hread k
    rwa [hrest, (hempty k).mpr hk, List.append_nil, String.toList_empty, List.append_nil] at hwhole
  · have hoffset := (c.read_append_rest k).2
    rw [Cursor.tokenAhead, (c.skip k).next_step.2.1, hoffset, Nat.add_assoc, ← byteLength_append]
    exact Nat.zero_add _
  · obtain ⟨unclosed, hgap, hleft⟩ := isGapFrom_splitTriviaFrom 0 (c.skip k).rest
    have htoken : (c.tokenAhead k).kind ≠ .eof := fun h => Nat.not_le_of_lt hk ((heof k).mp h)
    rw [hleft fun hnil => htoken (lexeme_kind_eq_eof.mpr hnil), closeComments, List.append_nil] at hgap
    exact hgap
  · obtain ⟨unclosed, hgap, -⟩ := isGapFrom_splitTriviaFrom 0 (c.skip (tokenize text).length).rest
    exact ⟨unclosed, hgap⟩
  · change (!(c.skip k).gap.isEmpty || (c.tokenAhead k).offset == 0) = true ↔ _
    simp

/-- Before a token is read, its first character can be seen. -/
theorem Cursor.peek?_eq_head? (c : Cursor) : c.peek? = c.next.1.text.toList.head? := by
  change (splitTrivia c.rest).2.head? = (nextText c.rest).toList.head?
  rw [nextText, String.toList_ofList]
  cases (splitTrivia c.rest).2 with
  | nil => rfl
  | cons d ds =>
    obtain ⟨n, hn⟩ := Nat.exists_eq_add_of_le' (lexeme_pos d ds)
    rw [hn]
    rfl

/-- Every text is cut into tokens and gaps, one call after another. The tokens in front of the end are those
that are parsed, and of each one the first character is seen before it is read. -/
theorem text_cut_into_pieces (text : List Char) :
    let c := Cursor.start text
    ∃ gap count, Pieces text c.tokenAhead gap count ∧
      tokenize text = (List.range count).map c.tokenAhead ∧
      ∀ k, (c.skip k).peek? = (c.tokenAhead k).text.toList.head? := by
  intro c
  exact ⟨fun k => (c.skip k).gap, (tokenize text).length, pieces_tokenize text, c.tokens_eq_map,
    fun k => (c.skip k).peek?_eq_head?⟩

end TreeQuery
