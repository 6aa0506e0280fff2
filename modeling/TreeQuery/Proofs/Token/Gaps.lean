import Mathlib.Data.List.Find
import TreeQuery.Proofs.Token.Places
import TreeQuery.Proofs.Token.Words

/-!
# Gaps between tokens

Blanks and comments that are closed can take the place of others: the tokens in front of a gap do not
depend on how it goes on, and those behind it not on what it is made of.
-/

namespace TreeQuery

/-- Whether a text has nothing but blanks and comments, which are all closed, inside so many comments. -/
def isGapFrom : Nat → List Char → Bool
  | comments, '(' :: ':' :: cs => isGapFrom (comments + 1) cs
  | 0, c :: cs => Text.isBlank c && isGapFrom 0 cs
  | comments + 1, ':' :: ')' :: cs => isGapFrom comments cs
  | comments + 1, _ :: cs => isGapFrom (comments + 1) cs
  | comments, [] => comments == 0

/-- Blanks and closed comments, at least one of them. -/
structure IsGap (w : List Char) : Prop where
  ne_nil : w ≠ []
  isGapFrom : isGapFrom 0 w = true

instance (w : List Char) : Decidable (IsGap w) :=
  decidable_of_iff (w ≠ [] ∧ isGapFrom 0 w = true) ⟨fun h => ⟨h.1, h.2⟩, fun h => ⟨h.1, h.2⟩⟩

/-- A text that starts like a gap. -/
def StartsGap (y : List Char) : Prop := ∃ c z, y = c :: z ∧ (Text.isBlank c = true ∨ c = '(')

private theorem IsGap.starts {w : List Char} (h : IsGap w) (q : List Char) : StartsGap (w ++ q) := by
  obtain ⟨hne, hgap⟩ := h
  cases w with
  | nil => contradiction
  | cons c w =>
    refine ⟨c, w ++ q, rfl, ?_⟩
    by_cases hc : c = '('
    · exact Or.inr hc
    · rw [isGapFrom.eq_def] at hgap
      split at hgap
      · next hcons => exact absurd (List.cons.inj hcons).1 hc
      · next hcons =>
        obtain ⟨rfl, rfl⟩ := List.cons.inj hcons
        exact Or.inl (Bool.and_eq_true_iff.mp hgap).1
      · contradiction
      · contradiction
      · contradiction

/-- A gap is taken off as a whole. -/
theorem splitTriviaFrom_gap {comments : Nat} {w : List Char} (h : isGapFrom comments w = true)
    (q : List Char) :
    splitTriviaFrom comments (w ++ q) = (w ++ (splitTrivia q).1, (splitTrivia q).2) := by
  fun_induction isGapFrom comments w with
  | case1 comments cs ih =>
    rw [List.cons_append, List.cons_append, splitTriviaFrom_open, ih h]
    rfl
  | case2 c cs hopen ih =>
    rw [Bool.and_eq_true] at h
    have hblank := splitTrivia_blank h.1 (cs ++ q)
    rw [splitTrivia, splitTrivia, ih h.2] at hblank
    exact hblank
  | case3 comments cs ih =>
    rw [List.cons_append, List.cons_append, splitTriviaFrom_close, ih h]
    rfl
  | case4 comments c cs hopen hclose ih =>
    -- The comment is closed later, so the next character is in the gap too.
    cases cs with
    | nil => contradiction
    | cons d cs =>
      rw [List.cons_append, splitTriviaFrom_inside, ih h]
      · rfl
      · exact fun hc hhead => hopen cs hc (congrArg (· :: cs) (Option.some.inj hhead))
      · exact fun hc hhead => hclose cs hc (congrArg (· :: cs) (Option.some.inj hhead))
  | case5 comments =>
    rw [beq_iff_eq] at h
    subst h
    rfl

/-! ### Behind a gap -/

/-- Behind the start of a text tokens do not depend on where it starts. -/
theorem alike_tokens (cs : List Char) {m n : Nat} (hm : 0 < m) (hn : 0 < n) :
    List.Forall₂ Token.Alike (Cursor.mk cs m).tokens (Cursor.mk cs n).tokens := by
  induction cs using token_induction generalizing m n with
  | eof cs h =>
    rw [Cursor.tokens_of_eof h, Cursor.tokens_of_eof h]
    exact .nil
  | token cs h ih =>
    rw [Cursor.tokens_of_not_eof h, Cursor.tokens_of_not_eof h]
    refine .cons ⟨rfl, rfl, ?_⟩ (ih (by omega) (by omega))
    have hm' : (m + byteLength (splitTrivia cs).1 == 0) = false := beq_false_of_ne (by omega)
    have hn' : (n + byteLength (splitTrivia cs).1 == 0) = false := beq_false_of_ne (by omega)
    dsimp only
    rw [hm', hn']

/-- Behind a gap there are the tokens that would be there without it, and the first of them is spaced. -/
theorem tokens_gap {w : List Char} (hw : IsGap w) {q : List Char} (h : nextKind q ≠ .eof) (offset : Nat) :
    (Cursor.mk (w ++ q) offset).tokens =
      { kind := nextKind q
        text := nextText q
        offset := offset + byteLength (w ++ (splitTrivia q).1)
        spaced := true } ::
        (Cursor.mk (afterToken q) (offset + byteLength (w ++ Cursor.consumed q))).tokens := by
  have htrivia : splitTrivia (w ++ q) = (w ++ (splitTrivia q).1, (splitTrivia q).2) :=
    splitTriviaFrom_gap hw.isGapFrom q
  have hkind : nextKind (w ++ q) = nextKind q := by
    rw [nextKind, htrivia, nextKind]
  have hspaced : (w ++ (splitTrivia q).1).isEmpty = false := by
    simp [hw.ne_nil]
  rw [Cursor.tokens_of_not_eof (hkind ▸ h), hkind, nextText, afterToken, Cursor.consumed, htrivia, hspaced,
    Bool.not_false, Bool.true_or, List.append_assoc]
  rfl

private theorem tokens_gap_of_eof {w : List Char} (hw : IsGap w) {q : List Char} (h : nextKind q = .eof)
    (offset : Nat) : (Cursor.mk (w ++ q) offset).tokens = [] := by
  refine Cursor.tokens_of_eof ?_ offset
  rw [nextKind, splitTrivia, splitTriviaFrom_gap hw.isGapFrom]
  exact h

private theorem alike_tokens_gap {w w' : List Char} (hw : IsGap w) (hw' : IsGap w') (q : List Char)
    (m n : Nat) :
    List.Forall₂ Token.Alike (Cursor.mk (w ++ q) m).tokens (Cursor.mk (w' ++ q) n).tokens := by
  by_cases h : nextKind q = .eof
  · rw [tokens_gap_of_eof hw h, tokens_gap_of_eof hw' h]
    exact .nil
  · have hpos (w : List Char) (n : Nat) : 0 < n + byteLength (w ++ Cursor.consumed q) := by
      have hconsumed := Cursor.byteLength_consumed_pos h
      rw [byteLength_append]
      omega
    rw [tokens_gap hw h, tokens_gap hw' h]
    exact .cons ⟨rfl, rfl, rfl⟩ (alike_tokens _ (hpos w m) (hpos w' n))

/-! ### In front of a gap -/

private theorem StartsGap.exists_cons {y : List Char} (h : StartsGap y) :
    ∃ c z, y = c :: z ∧ isNameChar c = false ∧
      ∀ d, Text.isBlank d = false → d ≠ '(' → c ≠ d := by
  obtain ⟨c, z, rfl, hc | rfl⟩ := h
  · refine ⟨c, z, rfl, isNameChar_of_isBlank hc, fun d hd _ => ?_⟩
    rintro rfl
    rw [hd] at hc
    contradiction
  · exact ⟨'(', z, rfl, by decide, fun d _ hd => hd.symm⟩

private theorem StartsGap.breaks {y : List Char} (h : StartsGap y) : Breaks y := by
  obtain ⟨c, z, rfl, hname, hne⟩ := h.exists_cons
  exact breaks_cons ⟨hname, hne _ (by decide) (by decide), hne _ (by decide) (by decide)⟩ z

section

variable {y : List Char} (hy : StartsGap y)

include hy

/-- What is taken from the start of a text ends before a gap. -/
theorem takeWhile_append_gap {p : Char → Bool} (hp : ∀ c, p c = true → isNameChar c = true)
    (x : List Char) : (x ++ y).takeWhile p = x.takeWhile p := by
  have hnone : y.takeWhile p = [] := hy.breaks.takeWhile hp (List.forall_mem_nil _)
  rw [List.takeWhile_append]
  split
  · next hall => rw [hnone, List.append_nil, (List.takeWhile_prefix p).eq_of_length hall]
  · rfl

private theorem takeWhile_isDigit_append_gap (x : List Char) :
    (x ++ y).takeWhile Text.isDigit = x.takeWhile Text.isDigit :=
  takeWhile_append_gap hy (fun _ => isNameChar_of_isDigit) x

private theorem scanMantissa_append_gap (x : List Char) : scanMantissa (x ++ y) = scanMantissa x := by
  have hle : (x.takeWhile Text.isDigit).length ≤ x.length := (List.takeWhile_prefix _).length_le
  rw [scanMantissa, scanMantissa, takeWhile_isDigit_append_gap hy, List.drop_append_of_le_length hle]
  cases x.drop (x.takeWhile Text.isDigit).length with
  | nil =>
    rw [List.nil_append]
    split
    · exact absurd rfl (hy.breaks '.' rfl).2.1
    · rfl
  | cons d ds =>
    rw [List.cons_append]
    by_cases hd : d = '.'
    · subst hd
      simp only [takeWhile_isDigit_append_gap hy]
    · split
      · next hcons => exact absurd (List.cons.inj hcons).1 hd
      · split
        · next hcons => exact absurd (List.cons.inj hcons).1 hd
        · rfl

omit hy in
private theorem scanMantissa_le (x : List Char) : (scanMantissa x).1 ≤ x.length := by
  have hle : (x.takeWhile Text.isDigit).length ≤ x.length := (List.takeWhile_prefix _).length_le
  rw [scanMantissa]
  split
  · next ds hdrop =>
    have hlength := congrArg List.length hdrop
    have hplaces : (ds.takeWhile Text.isDigit).length ≤ ds.length := (List.takeWhile_prefix _).length_le
    rw [List.length_drop, List.length_cons] at hlength
    dsimp only
    omega
  · exact hle

private theorem scanExponent_append_gap (x : List Char) : scanExponent (x ++ y) = scanExponent x := by
  cases x with
  | nil => exact scanExponent_of_breaks hy.breaks
  | cons c cs =>
    rw [List.cons_append]
    simp only [scanExponent]
    split
    · cases cs with
      | nil =>
        have hnone := takeWhile_isDigit_append_gap hy []
        obtain ⟨d, z, rfl, -, hne⟩ := hy.exists_cons
        have hplus : d ≠ '+' := hne _ (by decide) (by decide)
        have hminus : d ≠ '-' := hne _ (by decide) (by decide)
        rw [List.nil_append] at hnone ⊢
        simp [hplus, hminus, hnone]
      | cons d ds =>
        have hle : (if (d == '+' || d == '-') = true then 1 else 0) ≤ (d :: ds).length := by
          split <;> simp
        simp only [List.cons_append]
        rw [← List.cons_append, List.drop_append_of_le_length hle, takeWhile_isDigit_append_gap hy]
    · rfl

private theorem scanNumeral_append_gap (x : List Char) : scanNumeral (x ++ y) = scanNumeral x := by
  rw [scanNumeral, scanNumeral, scanMantissa_append_gap hy]
  dsimp only
  rw [List.drop_append_of_le_length (scanMantissa_le x), scanExponent_append_gap hy]

private theorem scanString_append_gap {q : Char} (hq : q = '\x22' ∨ q = '\x27') (x : List Char) :
    scanString q (x ++ y) = (scanString q x).or ((scanString q y).map (· + x.length)) := by
  fun_induction scanString q x with
  | case1 => simp
  | case2 ds ih =>
    simp only [List.cons_append, scanString, if_true]
    rw [ih]
    cases scanString q ds <;> cases scanString q y <;> simp
    omega
  | case3 d ds hd => simp [scanString, hd]
  | case4 =>
    obtain ⟨c, z, rfl, -, hne⟩ := hy.exists_cons
    have hc : c ≠ q := by
      rcases hq with rfl | rfl <;> exact hne _ (by decide) (by decide)
    simp [scanString, hc]
  | case5 c cs hc ih =>
    rw [List.cons_append, scanString.eq_def]
    simp only [if_neg hc]
    rw [ih]
    cases scanString q cs <;> cases scanString q y <;> simp
    omega

private theorem scanName_append_gap {x : List Char} (hx : x ≠ []) :
    (scanName (x ++ y)).map Prod.fst = (scanName x).map Prod.fst := by
  cases x with
  | nil => contradiction
  | cons c cs =>
    simp only [List.cons_append, scanName, takeWhile_append_gap hy (fun _ h => h)]
    split <;> rfl

private theorem isPrefixOf_append_gap {s : List Char} (hs : ∀ c ∈ s, Text.isBlank c = false ∧ c ≠ '(')
    (x : List Char) : s.isPrefixOf (x ++ y) = s.isPrefixOf x := by
  induction s generalizing x with
  | nil => simp
  | cons a s ih =>
    rw [List.forall_mem_cons] at hs
    cases x with
    | nil =>
      obtain ⟨c, z, rfl, -, hne⟩ := hy.exists_cons
      have hc : (a == c) = false := beq_false_of_ne (hne a hs.1.1 hs.1.2).symm
      rw [List.nil_append, List.isPrefixOf_cons_cons, hc]
      rfl
    | cons b x => rw [List.cons_append, List.isPrefixOf_cons_cons, List.isPrefixOf_cons_cons, ih hs.2]

private theorem startsWithDigit_append_gap (x : List Char) : startsWithDigit (x ++ y) =
    startsWithDigit x := by
  cases x with
  | nil =>
    obtain ⟨c, z, rfl, hname, -⟩ := hy.exists_cons
    exact Bool.eq_false_iff.mpr fun hdigit => by
      rw [isNameChar_of_isDigit hdigit] at hname
      contradiction
  | cons c cs => rfl

private theorem find?_symbols_append_gap (c : Char) (cs : List Char) :
    (symbols.find? fun s => s.1.isPrefixOf (c :: (cs ++ y))) =
      symbols.find? fun s => s.1.isPrefixOf (c :: cs) := by
  -- No symbol goes on with a blank or a parenthesis.
  have htable : (symbols.all fun s => s.1.tail.all fun d => !Text.isBlank d && d != '(') = true := by
    decide
  refine List.find?_congr fun s hs => ?_
  have htail : s.1.tail.isPrefixOf (cs ++ y) = s.1.tail.isPrefixOf cs :=
    isPrefixOf_append_gap hy (fun d hd => by
      simpa using List.all_eq_true.mp (List.all_eq_true.mp htable s hs) d hd) cs
  cases hsymbol : s.1 with
  | nil => rfl
  | cons d ds =>
    rw [hsymbol, List.tail_cons] at htail
    rw [List.isPrefixOf_cons_cons, List.isPrefixOf_cons_cons, htail]

/-- A token that is not a string does not see the gap behind it. -/
theorem lexeme_append_gap {c : Char} (hquote : (c == '\x22' || c == '\x27') = false) (cs : List Char) :
    lexeme (c :: (cs ++ y)) = lexeme (c :: cs) := by
  have hname := scanName_append_gap hy (List.cons_ne_nil c cs)
  rw [List.cons_append] at hname
  rw [lexeme, lexeme, startsWithDigit_append_gap hy, hquote, ← List.cons_append, scanNumeral_append_gap hy,
    List.cons_append, find?_symbols_append_gap hy]
  split
  · rfl
  · rw [if_neg Bool.false_ne_true, if_neg Bool.false_ne_true]
    cases hgap : scanName (c :: (cs ++ y)) <;> cases halone : scanName (c :: cs)
    · rfl
    · rw [hgap, halone] at hname
      contradiction
    · rw [hgap, halone] at hname
      contradiction
    · rw [hgap, halone] at hname
      exact congrArg (fun name => (TokenKind.name, name.length)) (Option.some.inj hname)

end

private theorem scanString_pos {q : Char} {cs : List Char} {n : Nat} (h : scanString q cs = some n) :
    0 < n := by
  have hmap {m : Nat} {found : Option Nat} (hfound : found.map (· + (m + 1)) = some n) : 0 < n := by
    obtain ⟨k, -, rfl⟩ := Option.map_eq_some_iff.mp hfound
    exact Nat.succ_pos _
  rw [scanString.eq_def] at h
  split at h
  · contradiction
  · split at h
    · split at h
      · split at h
        · exact hmap h
        · exact Option.some.inj h ▸ Nat.one_pos
      · exact Option.some.inj h ▸ Nat.one_pos
    · exact hmap h

/-- A quote starts a string that ends, or an illegal token up to the end of the text. -/
theorem lexeme_quote {q : Char} (hq : q = '\x22' ∨ q = '\x27') (cs : List Char) :
    lexeme (q :: cs) =
      match scanString q cs with
      | some n => (.string, n + 1)
      | none => (.illegal, cs.length + 1) := by
  rcases hq with rfl | rfl <;> rfl

/-- A token that ends in front of a gap is the same in front of another gap. -/
theorem lexeme_of_gap {y y' : List Char} (hy : StartsGap y) (hy' : StartsGap y') {c : Char}
    {cs : List Char} (hle : (lexeme (c :: (cs ++ y))).2 ≤ (c :: cs).length) :
    lexeme (c :: (cs ++ y')) = lexeme (c :: (cs ++ y)) := by
  cases hquote : c == '\x22' || c == '\x27' with
  | false => rw [lexeme_append_gap hy' hquote, lexeme_append_gap hy hquote]
  | true =>
    have hq : c = '\x22' ∨ c = '\x27' := by simpa using hquote
    rw [lexeme_quote hq, scanString_append_gap hy hq] at hle
    rw [lexeme_quote hq, lexeme_quote hq, scanString_append_gap hy hq, scanString_append_gap hy' hq]
    cases hscan : scanString c cs with
    | some n => rfl
    | none =>
      -- The string would go on behind the gap.
      rw [hscan, Option.none_or] at hle
      obtain ⟨d, z, rfl, -⟩ := hy
      cases hlater : scanString c (d :: z) with
      | some n =>
        have hpos := scanString_pos hlater
        rw [hlater, Option.map_some, List.length_cons] at hle
        dsimp only at hle
        omega
      | none =>
        rw [hlater, Option.map_none, List.length_append, List.length_cons, List.length_cons] at hle
        dsimp only at hle
        omega

/-- Inside a comment every character is taken off. -/
theorem head_splitTriviaFrom_succ (comments : Nat) (c : Char) (cs : List Char) :
    (splitTriviaFrom (comments + 1) (c :: cs)).1.head? = some c := by
  rw [splitTriviaFrom.eq_def]
  split
  · next hcons => exact congrArg List.head? hcons.symm
  · contradiction
  · next hcons => exact congrArg List.head? hcons.symm
  · next hcons =>
    obtain ⟨rfl, rfl⟩ := List.cons.inj hcons
    rfl
  · contradiction

/-- What was taken off a text is taken off in front of every token. -/
theorem splitTriviaFrom_append {comments : Nat} {cs z : List Char}
    (hne : (splitTriviaFrom comments cs).2 ≠ []) (hz : splitTrivia z = ([], z)) :
    splitTriviaFrom comments ((splitTriviaFrom comments cs).1 ++ z) =
      ((splitTriviaFrom comments cs).1, z) := by
  fun_induction splitTriviaFrom comments cs with
  | case1 comments cs ih =>
    rw [Prod.map_fst, List.cons_append, List.cons_append, splitTriviaFrom_open, ih hne]
    rfl
  | case2 c cs hopen hblank ih =>
    have htaken := splitTrivia_blank hblank ((splitTriviaFrom 0 cs).1 ++ z)
    rw [splitTrivia, splitTrivia, ih hne] at htaken
    exact htaken
  | case3 => exact hz
  | case4 comments cs ih =>
    rw [Prod.map_fst, List.cons_append, List.cons_append, splitTriviaFrom_close, ih hne]
    rfl
  | case5 comments c cs hopen hclose ih =>
    cases cs with
    | nil => contradiction
    | cons d ds =>
      obtain ⟨us, hus⟩ := List.head?_eq_some_iff.mp (head_splitTriviaFrom_succ comments d ds)
      rw [Prod.map_fst, List.cons_append, splitTriviaFrom_inside, ih hne]
      · rfl
      · intro hc hhead
        rw [hus] at hhead
        exact hopen ds hc (congrArg (· :: ds) (Option.some.inj hhead))
      · intro hc hhead
        rw [hus] at hhead
        exact hclose ds hc (congrArg (· :: ds) (Option.some.inj hhead))
  | case6 => contradiction

private theorem splitTrivia_append {cs z : List Char} (hne : (splitTrivia cs).2 ≠ [])
    (hz : splitTrivia z = ([], z)) : splitTrivia ((splitTrivia cs).1 ++ z) = ((splitTrivia cs).1, z) :=
  splitTriviaFrom_append hne hz

/-- What starts with a token in front of a gap does so in front of another gap. -/
theorem splitTrivia_of_gap {y y' : List Char} (hy' : StartsGap y') {c : Char} {cs : List Char}
    (h : splitTrivia (c :: (cs ++ y)) = ([], c :: (cs ++ y))) :
    splitTrivia (c :: (cs ++ y')) = ([], c :: (cs ++ y')) := by
  obtain ⟨hblank, hcomment⟩ := token_of_splitTrivia h
  refine splitTrivia_token hblank (hcomment.imp_right fun hhead => ?_)
  cases cs with
  | nil =>
    obtain ⟨d, z, rfl, -, hne⟩ := hy'.exists_cons
    exact fun heq => hne ':' (by decide) (by decide) (Option.some.inj heq)
  | cons d ds => exact hhead

/-- The first token of a text is the same whatever gap stands somewhere behind it. -/
theorem next_of_gap {p r y y' : List Char} (hy : StartsGap y) (hy' : StartsGap y')
    (h : nextKind (p ++ y) ≠ .eof) (hp : Cursor.consumed (p ++ y) ++ r = p) :
    (splitTrivia (p ++ y')).1 = (splitTrivia (p ++ y)).1 ∧ nextKind (p ++ y') = nextKind (p ++ y) ∧
      nextText (p ++ y') = nextText (p ++ y) ∧ afterToken (p ++ y') = r ++ y' := by
  have htext := append_splitTrivia (p ++ y)
  have hidem := splitTrivia_splitTrivia (p ++ y)
  have htrivia := @splitTrivia_append (p ++ y)
  rw [nextKind] at h
  rw [Cursor.consumed] at hp
  rw [nextKind, nextKind, nextText, nextText, afterToken]
  obtain ⟨u, v, hsplit⟩ : ∃ u v, splitTrivia (p ++ y) = (u, v) := ⟨_, _, rfl⟩
  rw [hsplit] at htext hidem htrivia h hp ⊢
  dsimp only at htext hidem htrivia h hp ⊢
  -- The token is `x`, in front of what is left of `p` behind it.
  obtain ⟨x, hx⟩ : ∃ x, v.take (lexeme v).2 = x := ⟨_, rfl⟩
  rw [hx] at hp ⊢
  have hv : v = x ++ (r ++ y) := by
    rw [← hp, List.append_assoc, List.append_assoc] at htext
    exact List.append_cancel_left htext
  have hlength : (lexeme v).2 = x.length := by
    obtain ⟨d, z, rfl, -⟩ := hy
    have htake := congrArg List.length hx
    have hlonger := congrArg List.length hv
    rw [List.length_take] at htake
    simp only [List.length_append, List.length_cons] at hlonger
    omega
  have hne : x ≠ [] := by
    rintro rfl
    obtain ⟨d, ds, rfl⟩ := List.exists_cons_of_ne_nil fun hnil => h (lexeme_kind_eq_eof.mpr hnil)
    exact absurd hlength (Nat.ne_of_gt (lexeme_pos d ds))
  obtain ⟨c, cs, rfl⟩ := List.exists_cons_of_ne_nil hne
  have hcons (y : List Char) : c :: cs ++ (r ++ y) = c :: (cs ++ r ++ y) := by
    rw [List.cons_append, List.append_assoc]
  have hlexeme : lexeme (c :: (cs ++ r ++ y')) = lexeme v := by
    rw [hv, hcons]
    rw [hv, hcons] at hlength
    refine lexeme_of_gap hy hy' ?_
    rw [hlength]
    simp
  have hstart : splitTrivia (c :: (cs ++ r ++ y')) = ([], c :: (cs ++ r ++ y')) := by
    rw [hv, hcons] at hidem
    exact splitTrivia_of_gap hy' hidem
  have hsplit' : splitTrivia (p ++ y') = (u, c :: (cs ++ r ++ y')) := by
    rw [← hcons] at hstart ⊢
    have htaken := htrivia (hv ▸ List.cons_ne_nil _ _) hstart
    rwa [← List.append_assoc, ← List.append_assoc, hp] at htaken
  rw [hsplit']
  dsimp only
  rw [hlexeme, hlength, ← hcons, List.take_left, List.drop_left]
  exact ⟨rfl, rfl, rfl, rfl⟩

/-- How many bytes precede the end of a token. -/
def Token.stop (t : Token) : Nat := t.offset + t.text.utf8ByteSize

/-- A token takes as many bytes as the blanks in front of it and its text have. -/
theorem byteLength_consumed (cs : List Char) :
    byteLength (Cursor.consumed cs) = byteLength (splitTrivia cs).1 + (nextText cs).utf8ByteSize := by
  rw [Cursor.consumed, byteLength_append, nextText, utf8ByteSize_ofList]

/-- The first token ends where what is left begins. -/
theorem stop_next (cs : List Char) (offset : Nat) :
    (Cursor.mk cs offset).next.1.stop = offset + byteLength (Cursor.consumed cs) := by
  rw [byteLength_consumed, ← Nat.add_assoc]
  rfl

/-- Starts of a text that take the same bytes are the same. -/
theorem prefix_of_byteLength_le {p q cs : List Char} (hp : p <+: cs) (hq : q <+: cs)
    (hle : byteLength p ≤ byteLength q) : p <+: q := by
  rcases List.prefix_or_prefix_of_prefix hp hq with h | ⟨r, rfl⟩
  · exact h
  · rw [byteLength_append] at hle
    obtain rfl : r = [] := byteLength_eq_zero.mp (by omega)
    exact ⟨[], by simp⟩

private theorem tokens_cons_of_gap {p r y y' : List Char} (hy : StartsGap y) (hy' : StartsGap y')
    (h : nextKind (p ++ y) ≠ .eof) (hp : Cursor.consumed (p ++ y) ++ r = p) (offset : Nat) :
    (Cursor.mk (p ++ y') offset).tokens = (Cursor.mk (p ++ y) offset).next.1 ::
      (Cursor.mk (r ++ y') (offset + byteLength (Cursor.consumed (p ++ y)))).tokens := by
  obtain ⟨htrivia, hkind, htext, hrest⟩ := next_of_gap hy hy' h hp
  rw [Cursor.tokens_of_not_eof (hkind ▸ h), byteLength_consumed, byteLength_consumed, htrivia, hkind, htext,
    hrest]
  rfl

/-- If a token ends in front of a gap, the tokens up to there are the same in front of every gap. -/
theorem tokens_of_gap {p y : List Char} (hy : StartsGap y) (offset : Nat)
    (hend : ∃ t ∈ (Cursor.mk (p ++ y) offset).tokens, t.stop = offset + byteLength p) :
    ∃ ts, ∀ y', StartsGap y' → (Cursor.mk (p ++ y') offset).tokens =
      ts ++ (Cursor.mk y' (offset + byteLength p)).tokens := by
  induction hcs : p ++ y using token_induction generalizing p offset with
  | eof cs h =>
    obtain ⟨t, ht, -⟩ := hend
    rw [hcs, Cursor.tokens_of_eof h] at ht
    exact absurd ht List.not_mem_nil
  | token cs h ih =>
    subst hcs
    obtain ⟨t, ht, hstop⟩ := hend
    have hcases : t = (Cursor.mk (p ++ y) offset).next.1 ∨
        t ∈ (Cursor.mk (afterToken (p ++ y)) (offset + byteLength (Cursor.consumed (p ++ y)))).tokens := by
      rw [Cursor.tokens_of_not_eof h] at ht
      exact List.mem_cons.mp ht
    have hle : byteLength (Cursor.consumed (p ++ y)) ≤ byteLength p := by
      rcases hcases with rfl | hlater
      · rw [stop_next] at hstop
        omega
      · have hfrom := (Cursor.offset_of_mem_tokens _ _ t hlater).1
        rw [Token.stop] at hstop
        omega
    obtain ⟨r, hr⟩ := prefix_of_byteLength_le ⟨_, Cursor.consumed_append (p ++ y)⟩ ⟨y, rfl⟩ hle
    have hoffset : offset + byteLength p =
        offset + byteLength (Cursor.consumed (p ++ y)) + byteLength r := by
      rw [Nat.add_assoc, ← byteLength_append, hr]
    rcases hcases with rfl | hlater
    · -- The token that ends there is the first one, so nothing is left of `p` behind it.
      have hnil : r = [] := by
        rw [stop_next] at hstop
        exact byteLength_eq_zero.mp (by omega)
      subst hnil
      refine ⟨[(Cursor.mk (p ++ y) offset).next.1], fun y' hy' => ?_⟩
      rw [tokens_cons_of_gap hy hy' h hr, hoffset]
      rfl
    · have hafter := (next_of_gap hy hy h hr).2.2.2
      obtain ⟨ts, hts⟩ := ih _ ⟨t, hafter ▸ hlater, hstop.trans hoffset⟩ hafter.symm
      refine ⟨(Cursor.mk (p ++ y) offset).next.1 :: ts, fun y' hy' => ?_⟩
      rw [tokens_cons_of_gap hy hy' h hr, hts y' hy', hoffset, List.cons_append]

/-- A gap behind a token can take the place of another one: the tokens differ at most in where they
stand. -/
theorem alike_of_gap {p q w w' : List Char} (hw : IsGap w) (hw' : IsGap w')
    (hend : ∃ t ∈ tokenize (p ++ (w ++ q)), t.stop = byteLength p) :
    List.Forall₂ Token.Alike (tokenize (p ++ (w ++ q))) (tokenize (p ++ (w' ++ q))) := by
  obtain ⟨ts, hts⟩ := tokens_of_gap (hw.starts q) 0 (by rwa [Nat.zero_add])
  rw [tokenize, tokenize, Cursor.start, Cursor.start, hts _ (hw.starts q), hts _ (hw'.starts q)]
  exact List.rel_append (List.forall₂_same.mpr fun t _ => ⟨rfl, rfl, rfl⟩) (alike_tokens_gap hw hw' q _ _)

end TreeQuery
