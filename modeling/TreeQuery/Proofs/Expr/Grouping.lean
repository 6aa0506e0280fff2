import TreeQuery.Proofs.Expr.Commas
import TreeQuery.Proofs.Token.Places

/-!
# Commas among tokens

The search for a comma runs over the characters of a text, but it passes over blanks and comments and
sees in every token no more than its kind. So the tokens of the text tell what it finds.
-/

namespace TreeQuery

variable {cs : List Char} {depth : Nat}

/-- Whether a token is a bracket or a comma. -/
def TokenKind.groups (kind : TokenKind) : Bool :=
  kind == .leftParen || kind == .leftBracket || kind == .leftBrace || kind == .rightParen ||
    kind == .rightBracket || kind == .rightBrace || kind == .comma

/-- What a token says about a comma outside so many open groups, given what is said behind it. -/
def TokenKind.commaAhead (kind : TokenKind) (depth : Nat) (behind : Nat → Bool) : Bool :=
  match kind with
  | .leftParen | .leftBracket | .leftBrace => behind (depth + 1)
  | .rightParen | .rightBracket | .rightBrace =>
    match depth with
    | 0 => false
    | depth + 1 => behind depth
  | .comma => depth == 0 || behind depth
  | _ => behind depth

/-- Whether a comma outside so many open groups comes before the end of the group around the tokens. -/
def commaAmong : Nat → List Token → Bool
  | _, [] => false
  | depth, t :: ts => t.kind.commaAhead depth fun depth => commaAmong depth ts

private theorem TokenKind.commaAhead_of_not_groups {kind : TokenKind} (h : kind.groups = false)
    (depth : Nat) (behind : Nat → Bool) : kind.commaAhead depth behind = behind depth := by
  cases kind with
  | leftParen | rightParen | leftBracket | rightBracket | leftBrace | rightBrace | comma => contradiction
  | _ => rfl

/-! ### Blanks and comments -/

private theorem isOrdinary_of_isBlank {c : Char} (h : Text.isBlank c = true) : IsOrdinary c :=
  isOrdinary_of_kind (by decide) h

/-- The mode of the search inside so many comments. -/
def ScanMode.inComments : Nat → ScanMode
  | 0 => .code
  | outer + 1 => .comment outer

/-- Blanks and comments are passed over. -/
theorem commaAhead_splitTriviaFrom (comments : Nat) (cs : List Char) :
    commaAhead (.inComments comments) depth cs =
      commaAhead .code depth (splitTriviaFrom comments cs).2 := by
  fun_induction splitTriviaFrom comments cs with
  | case1 comments cs ih =>
    rw [Prod.map_snd, id, ← ih]
    cases comments <;> rfl
  | case2 c cs _ hblank ih =>
    rw [Prod.map_snd, id, ← ih]
    exact commaAhead_ordinary (isOrdinary_of_isBlank hblank)
  | case3 => rfl
  | case4 comments cs ih =>
    rw [Prod.map_snd, id, ← ih]
    cases comments <;> rfl
  | case5 comments c cs hopen hclose ih =>
    rw [Prod.map_snd, id, ← ih, ScanMode.inComments, commaAhead]
    · exact hopen
    · exact fun ds _ => hclose ds
    · exact fun _ ds _ => hclose ds
  | case6 comments => cases comments <;> rfl

private theorem commaAhead_splitTrivia (cs : List Char) :
    commaAhead .code depth cs = commaAhead .code depth (splitTrivia cs).2 :=
  commaAhead_splitTriviaFrom 0 cs

/-! ### Tokens -/

/-- Inside a string only its quotes count, and one that is never closed hides all that is left. -/
theorem commaAhead_quoted_eq (q : Char) (cs : List Char) :
    commaAhead (.quoted q) depth cs =
      match scanString q cs with
      | some n => commaAhead .code depth (cs.drop n)
      | none => false := by
  fun_induction scanString q cs with
  | case1 => rfl
  | case2 ds ih =>
    rw [commaAhead, if_pos rfl]
    simp only [if_true]
    rw [ih]
    cases scanString q ds <;> rfl
  | case3 d ds hd =>
    rw [commaAhead, if_pos rfl]
    simp only [if_neg hd]
    rfl
  | case4 =>
    rw [commaAhead, if_pos rfl]
    rfl
  | case5 c cs hc ih =>
    rw [commaAhead.eq_def]
    simp only [if_neg hc]
    rw [ih]
    cases scanString q cs <;> rfl

private theorem ordinary_takeWhile_isDigit (cs : List Char) :
    ∀ c ∈ cs.takeWhile Text.isDigit, IsOrdinary c :=
  fun _ hc => isOrdinary_of_isNameChar (isNameChar_of_isDigit (List.mem_takeWhile_imp hc))

private theorem take_length_takeWhile (p : Char → Bool) (cs : List Char) :
    cs.take (cs.takeWhile p).length = cs.takeWhile p :=
  (List.prefix_iff_eq_take.mp (List.takeWhile_prefix p)).symm

/-- A numeral has no brackets, quotes or commas in it. -/
theorem ordinary_scanMantissa (cs : List Char) : ∀ c ∈ cs.take (scanMantissa cs).1, IsOrdinary c := by
  rw [scanMantissa]
  split
  · next ds hdrop =>
    rw [Nat.add_assoc, List.take_add, take_length_takeWhile, hdrop, Nat.add_comm, List.take_succ_cons,
      take_length_takeWhile, List.forall_mem_append, List.forall_mem_cons]
    exact ⟨ordinary_takeWhile_isDigit cs, by decide, ordinary_takeWhile_isDigit ds⟩
  · rw [take_length_takeWhile]
    exact ordinary_takeWhile_isDigit cs

private theorem ordinary_scanExponent (cs : List Char) :
    ∀ c ∈ cs.take (scanExponent cs), IsOrdinary c := by
  cases cs with
  | nil => exact List.forall_mem_nil _
  | cons c cs =>
    by_cases hc : (c == 'e' || c == 'E') = true
    · have hmark : IsOrdinary c := by
        rw [Bool.or_eq_true, beq_iff_eq, beq_iff_eq] at hc
        rcases hc with rfl | rfl <;> decide
      -- Whatever is taken for the sign, digits follow it.
      have hrest {sign : Nat} (hsign : ∀ d ∈ cs.take sign, IsOrdinary d) :
          let ds := ((cs.drop sign).takeWhile Text.isDigit).length
          ∀ d ∈ (c :: cs).take (if ds = 0 then 0 else 1 + sign + ds), IsOrdinary d := by
        dsimp only
        split
        · exact List.forall_mem_nil _
        · rw [Nat.add_assoc, Nat.add_comm, List.take_succ_cons, List.take_add, take_length_takeWhile,
            List.forall_mem_cons, List.forall_mem_append]
          exact ⟨hmark, hsign, ordinary_takeWhile_isDigit _⟩
      simp only [scanExponent, if_pos hc]
      cases cs with
      | nil => exact hrest (List.forall_mem_nil _)
      | cons d cs =>
        by_cases hd : (d == '+' || d == '-') = true
        · simp only [if_pos hd]
          refine hrest ?_
          rw [Bool.or_eq_true, beq_iff_eq, beq_iff_eq] at hd
          rcases hd with rfl | rfl <;> simp <;> decide
        · simp only [if_neg hd]
          exact hrest (List.forall_mem_nil _)
    · simp only [scanExponent, if_neg hc, List.take_zero]
      exact List.forall_mem_nil _

private theorem ordinary_scanNumeral (cs : List Char) :
    ∀ c ∈ cs.take (scanNumeral cs).2, IsOrdinary c := by
  rw [scanNumeral]
  dsimp only
  rw [List.take_add, List.forall_mem_append]
  exact ⟨ordinary_scanMantissa cs, ordinary_scanExponent _⟩

/-- What is passed over does not group. -/
theorem commaAhead_take {n : Nat} {kind : TokenKind} (hkind : kind.groups = false)
    (h : ∀ c ∈ cs.take n, IsOrdinary c) :
    commaAhead .code depth cs = kind.commaAhead depth fun depth => commaAhead .code depth (cs.drop n) := by
  rw [TokenKind.commaAhead_of_not_groups hkind]
  conv_lhs => rw [← List.take_append_drop n cs]
  exact commaAhead_ordinaries h

private theorem groups_scanNumeral (cs : List Char) : (scanNumeral cs).1.groups = false := by
  rw [scanNumeral]
  dsimp only
  split
  · rfl
  · split <;> rfl

/-- The symbols that group are single characters. -/
theorem commaAhead_symbol {symbol rest : List Char} {kind : TokenKind} (hmem : (symbol, kind) ∈ symbols)
    (h : symbol ≠ ['('] ∨ rest.head? ≠ some ':') :
    commaAhead .code depth (symbol ++ rest) =
      kind.commaAhead depth fun depth => commaAhead .code depth rest := by
  have htable : ∀ s ∈ symbols, (s.2.groups = false ∧ ∀ c ∈ s.1, IsOrdinary c) ∨
      s ∈ [(['('], .leftParen), (['['], .leftBracket), (['\x7b'], .leftBrace), ([')'], .rightParen),
        ([']'], .rightBracket), (['\x7d'], .rightBrace), ([','], .comma)] := by
    decide
  have hclosing {c : Char} (hc : isClosing c = true) :
      commaAhead .code depth (c :: rest) =
        TokenKind.rightParen.commaAhead depth fun depth => commaAhead .code depth rest := by
    cases depth with
    | zero => exact commaAhead_closing_zero hc
    | succ depth => exact commaAhead_closing hc
  rcases htable _ hmem with ⟨hgroups, hordinary⟩ | hgroups
  · rw [TokenKind.commaAhead_of_not_groups hgroups]
    exact commaAhead_ordinaries hordinary
  · simp only [List.mem_cons, Prod.mk.injEq, List.not_mem_nil, or_false] at hgroups
    rcases hgroups with ⟨rfl, rfl⟩ | ⟨rfl, rfl⟩ | ⟨rfl, rfl⟩ | ⟨rfl, rfl⟩ | ⟨rfl, rfl⟩ | ⟨rfl, rfl⟩ |
      ⟨rfl, rfl⟩
    · exact commaAhead_opening rfl (Or.inr (h.resolve_left fun hne => hne rfl))
    · exact commaAhead_opening rfl (Or.inl (by decide))
    · exact commaAhead_opening rfl (Or.inl (by decide))
    · exact hclosing rfl
    · exact hclosing rfl
    · exact hclosing rfl
    · rw [List.singleton_append, commaAhead_cons (Or.inl (by decide))]
      cases depth <;> rfl

/-- Of a token the search sees its kind. -/
theorem commaAhead_lexeme {c : Char} (h : c ≠ '(' ∨ cs.head? ≠ some ':') :
    commaAhead .code depth (c :: cs) =
      (lexeme (c :: cs)).1.commaAhead depth fun depth =>
        commaAhead .code depth ((c :: cs).drop (lexeme (c :: cs)).2) := by
  rw [lexeme]
  split
  · exact commaAhead_take (groups_scanNumeral _) (ordinary_scanNumeral _)
  · split
    · next hquote =>
      have hparen : c ≠ '(' := by
        rintro rfl
        contradiction
      rw [commaAhead_cons (Or.inl hparen), if_pos hquote, commaAhead_quoted_eq]
      cases scanString c cs with
      | some n => rfl
      | none =>
        simp only [List.drop_length]
        rfl
    · next hquote =>
      split
      · next name rest hname =>
        obtain ⟨hinitial, hchars⟩ := prefix_of_scanName hname
        rw [List.prefix_iff_eq_take] at hinitial
        refine commaAhead_take rfl fun d hd => isOrdinary_of_isNameChar (hchars d ?_)
        rwa [hinitial]
      · split
        · next symbol kind hfind =>
          have hinitial := List.find?_some hfind
          obtain ⟨rest, hrest⟩ := List.isPrefixOf_iff_prefix.mp hinitial
          have hhead : symbol ≠ ['('] ∨ rest.head? ≠ some ':' := by
            by_cases hsymbol : symbol = ['(']
            · rw [hsymbol] at hrest
              obtain ⟨rfl, rfl⟩ := List.cons.inj hrest
              exact Or.inr (h.resolve_left fun hne => hne rfl)
            · exact Or.inl hsymbol
          rw [← hrest, List.drop_left, commaAhead_symbol (List.mem_of_find?_eq_some hfind) hhead]
        · next hfind =>
          have hordinary : IsOrdinary c := by
            refine isOrdinary_of_not_mem fun hmem => ?_
            have htable : ∀ d ∈ groupingChars, (d == '\x22' || d == '\x27') = true ∨
                ∃ s ∈ symbols, s.1 = [d] := by decide
            rcases htable c hmem with hc | ⟨s, hs, hsymbol⟩
            · exact hquote hc
            · refine List.find?_eq_none.mp hfind s hs ?_
              rw [hsymbol]
              simp
          refine commaAhead_take rfl ?_
          rw [List.take_succ_cons, List.take_zero]
          exact List.forall_mem_singleton.mpr hordinary

/-- The tokens of a text tell what the search finds in it. -/
theorem commaAhead_eq_commaAmong (cs : List Char) (offset depth : Nat) :
    commaAhead .code depth cs = commaAmong depth (Cursor.mk cs offset).tokens := by
  induction cs using token_induction generalizing offset depth with
  | eof cs h =>
    have hnil : (splitTrivia cs).2 = [] := lexeme_kind_eq_eof.mp h
    rw [Cursor.tokens_of_eof h, commaAmong, commaAhead_splitTrivia, hnil]
    rfl
  | token cs h ih =>
    obtain ⟨c, ds, hcons⟩ := List.exists_cons_of_ne_nil fun hnil => h (lexeme_kind_eq_eof.mpr hnil)
    rw [Cursor.tokens_of_not_eof h, commaAmong, commaAhead_splitTrivia, hcons,
      commaAhead_lexeme ((token_of_splitTrivia_eq hcons).2)]
    simp only [← ih]
    rw [nextKind, afterToken, hcons]

/-! ### The comma that is found -/

/-- How many groups more are open behind a token than in front of it. -/
def TokenKind.opens : TokenKind → Int
  | .leftParen | .leftBracket | .leftBrace => 1
  | .rightParen | .rightBracket | .rightBrace => -1
  | _ => 0

/-- How many groups more are open behind tokens than in front of them. Brackets of all kinds count alike. -/
def groupDepth : List Token → Int
  | [] => 0
  | t :: ts => t.kind.opens + groupDepth ts

/-- No token closes the group around the tokens, if so many groups are open in front of them. -/
def StaysInside (depth : Int) (ts : List Token) : Prop :=
  ∀ front close rest, ts = front ++ close :: rest → close.kind.opens = -1 → depth + groupDepth front ≠ 0

/-- A comma stands outside all groups, and the group around the tokens is not closed in front of it. -/
def HasComma (depth : Int) (ts : List Token) : Prop :=
  ∃ before comma after, ts = before ++ comma :: after ∧ comma.kind = .comma ∧
    depth + groupDepth before = 0 ∧ StaysInside depth before

private theorem staysInside_cons {depth : Int} {t : Token} {ts : List Token} :
    StaysInside depth (t :: ts) ↔
      (t.kind.opens = -1 → depth ≠ 0) ∧ StaysInside (depth + t.kind.opens) ts := by
  constructor
  · intro h
    constructor
    · intro hclose
      have hdepth := h [] t ts rfl hclose
      rwa [groupDepth, Int.add_zero] at hdepth
    · intro front close rest hsplit hclose
      have hdepth := h (t :: front) close rest (by rw [hsplit, List.cons_append]) hclose
      rwa [groupDepth, ← Int.add_assoc] at hdepth
  · rintro ⟨hhead, htail⟩ front close rest hsplit hclose
    cases front with
    | nil =>
      obtain ⟨rfl, rfl⟩ := List.cons.inj hsplit
      rw [groupDepth, Int.add_zero]
      exact hhead hclose
    | cons u front =>
      obtain ⟨rfl, rfl⟩ := List.cons.inj hsplit
      rw [groupDepth, ← Int.add_assoc]
      exact htail front close rest rfl hclose

/-- The first token is the comma, or it does not close the group and the comma comes behind it. -/
theorem hasComma_cons {depth : Int} {t : Token} {ts : List Token} :
    HasComma depth (t :: ts) ↔ (t.kind = .comma ∧ depth = 0) ∨
      ((t.kind.opens = -1 → depth ≠ 0) ∧ HasComma (depth + t.kind.opens) ts) := by
  constructor
  · rintro ⟨before, comma, after, hsplit, hcomma, hdepth, hinside⟩
    cases before with
    | nil =>
      obtain ⟨rfl, rfl⟩ := List.cons.inj hsplit
      rw [groupDepth, Int.add_zero] at hdepth
      exact Or.inl ⟨hcomma, hdepth⟩
    | cons u before =>
      obtain ⟨rfl, rfl⟩ := List.cons.inj hsplit
      rw [groupDepth, ← Int.add_assoc] at hdepth
      obtain ⟨hhead, htail⟩ := staysInside_cons.mp hinside
      exact Or.inr ⟨hhead, before, comma, after, rfl, hcomma, hdepth, htail⟩
  · rintro (⟨hcomma, rfl⟩ | ⟨hhead, before, comma, after, rfl, hcomma, hdepth, hinside⟩)
    · refine ⟨[], t, ts, rfl, hcomma, rfl, ?_⟩
      intro front close rest hsplit
      exact absurd hsplit (by simp)
    · refine ⟨t :: before, comma, after, rfl, hcomma, ?_, staysInside_cons.mpr ⟨hhead, hinside⟩⟩
      rwa [groupDepth, ← Int.add_assoc]

/-- By induction on the tokens: a bracket changes the depth at which the rest is looked at. -/
theorem commaAmong_iff (depth : Nat) (ts : List Token) :
    commaAmong depth ts = true ↔ HasComma depth ts := by
  induction ts generalizing depth with
  | nil =>
    constructor
    · intro h
      contradiction
    · rintro ⟨before, comma, after, hsplit, -⟩
      exact absurd hsplit (by simp)
  | cons t ts ih =>
    rw [commaAmong, hasComma_cons]
    generalize hkind : t.kind = kind
    cases kind with
    | rightParen | rightBracket | rightBrace =>
      cases depth with
      | zero => simp [TokenKind.commaAhead, TokenKind.opens]
      | succ depth =>
        have hne : ((depth + 1 : Nat) : Int) ≠ 0 := by omega
        have hpred : ((depth + 1 : Nat) : Int) + -1 = depth := by omega
        simp only [TokenKind.commaAhead, TokenKind.opens, ih, hpred, reduceCtorEq, false_and, false_or]
        exact (and_iff_right fun _ => hne).symm
    | _ => simp [TokenKind.commaAhead, TokenKind.opens, ih]

/-- The search for a comma and the tokens agree on every text: it finds one exactly where a comma stands
among the tokens at depth zero and no bracket in front of it closes a group there. -/
theorem hasOwnComma_iff (text : List Char) :
    hasOwnComma text = true ↔ ∃ before comma after, tokenize text = before ++ comma :: after ∧
      comma.kind = .comma ∧ groupDepth before = 0 ∧
        ∀ front close rest, before = front ++ close :: rest → close.kind.opens = -1 →
          groupDepth front ≠ 0 := by
  rw [hasOwnComma, commaAhead_eq_commaAmong text 0 0, commaAmong_iff]
  simp only [HasComma, StaysInside, Int.natCast_zero, Int.zero_add]
  rfl

/-- Brackets need not match, and what stands in a comment or in a string is no comma. -/
example : hasOwnComma "(1, ',' (: ) :) ], 2".toList = true := by
  decide +kernel

end TreeQuery
