import TreeQuery.Proofs.Token.QName

/-!
# Tokens whose brackets are nested

Every bracket is closed by one of its kind, and no token is illegal. The parameters of a type are an
exception: they stand behind the word of the type, and there only parentheses count. A type is
announced by the words `of` and `as`, and may be put in parentheses.

The tokens that are joined to a name are neither brackets nor illegal. An illegal token may start with
a character that names go on with, but not behind a name, of which it would be a part, and neither
behind a colon or a star, where a name would have to start.
-/

namespace TreeQuery

open TreeQuery.Parser

namespace TokenKind

/-- The bracket that closes an opening one. -/
def closing? : TokenKind → Option TokenKind
  | .leftParen => some .rightParen
  | .leftBracket => some .rightBracket
  | .leftBrace => some .rightBrace
  | _ => none

/-- Whether tokens of this kind close a bracket. -/
def isClosing : TokenKind → Bool
  | .rightParen | .rightBracket | .rightBrace => true
  | _ => false

/-- Whether tokens of this kind are legal and no brackets. -/
def isPlain : TokenKind → Bool
  | .leftParen | .rightParen | .leftBracket | .rightBracket | .leftBrace | .rightBrace => false
  | .illegal | .eof => false
  | _ => true

end TokenKind

namespace Token

/-- Whether a type stands behind a word. -/
def announcesType (t : Token) : Bool := t.isWord "of" || t.isWord "as"

/-- Whether a token is the word of a type that is spelled with parameters. -/
def takesParameters (t : Token) : Bool :=
  t.kind == .name && (parameterizedTypes.lookup t.text).isSome

end Token

/-- Tokens up to the parenthesis that closes a group, inside so many others. Any tokens may stand
between the parentheses. -/
inductive EndsGroup : Nat → List Token → Prop
  | last {t : Token} (closing : t.kind = .rightParen) : EndsGroup 0 [t]
  | closes {depth : Nat} {t : Token} {ts : List Token} (closing : t.kind = .rightParen)
    (rest : EndsGroup depth ts) : EndsGroup (depth + 1) (t :: ts)
  | opens {depth : Nat} {t : Token} {ts : List Token} (opening : t.kind = .leftParen)
    (rest : EndsGroup (depth + 1) ts) : EndsGroup depth (t :: ts)
  | other {depth : Nat} {t : Token} {ts : List Token} (opening : t.kind ≠ .leftParen)
    (closing : t.kind ≠ .rightParen) (rest : EndsGroup depth ts) : EndsGroup depth (t :: ts)

/-- Tokens that are legal and close all brackets, those in front of them included. The first argument
tells whether a type may start here. -/
inductive Nested : Bool → List TokenKind → List Token → Prop
  | nil (inType : Bool) : Nested inType [] []
  | plain {inType : Bool} {closers : List TokenKind} {t : Token} {ts : List Token}
    (legal : t.kind.isPlain = true) (rest : Nested t.announcesType closers ts) :
    Nested inType closers (t :: ts)
  | opens {inType : Bool} {closers : List TokenKind} {close : TokenKind} {t : Token} {ts : List Token}
    (opening : t.kind.closing? = some close)
    (rest : Nested (inType && t.kind == .leftParen) (close :: closers) ts) :
    Nested inType closers (t :: ts)
  | closes {inType : Bool} {closers : List TokenKind} {t : Token} {ts : List Token}
    (rest : Nested false closers ts) : Nested inType (t.kind :: closers) (t :: ts)
  | parameters {closers : List TokenKind} {t u : Token} {inside ts : List Token}
    (word : t.takesParameters = true) (opening : u.kind = .leftParen) (group : EndsGroup 0 inside)
    (rest : Nested false closers ts) : Nested true closers (t :: u :: (inside ++ ts))

variable {closers : List TokenKind} {ts us : List Token} {t u : Token}

/-- Where a type may start, anything else may stand too. -/
theorem Nested.inType (h : Nested false closers ts) (inType : Bool) : Nested inType closers ts := by
  generalize hstart : false = start at h
  induction h generalizing inType with
  | nil => exact .nil inType
  | plain legal rest => exact .plain legal rest
  | opens opening rest ih =>
    subst hstart
    exact .opens opening (ih _ rfl)
  | closes rest => exact .closes rest
  | parameters => contradiction

/-- Tokens that are plain may stand in front of nested ones. -/
theorem Nested.plains (hus : ∀ t ∈ us, t.kind.isPlain = true) (h : Nested false closers ts)
    (inType : Bool) : Nested inType closers (us ++ ts) := by
  induction us generalizing inType with
  | nil => exact h.inType inType
  | cons u us ih =>
    rw [List.forall_mem_cons] at hus
    exact .plain hus.1 (ih hus.2 _)

private theorem closing?_ne_illegal (kind : TokenKind) : kind.closing? ≠ some .illegal := by
  cases kind <;> decide

/-- A token that stands between the parentheses behind the word of a type. -/
def Token.InParameters (t : Token) (ts : List Token) : Prop :=
  ∃ front word opening inside rest, ts = front ++ word :: opening :: (inside ++ rest) ∧
    word.takesParameters = true ∧ opening.kind = .leftParen ∧ EndsGroup 0 inside ∧ t ∈ inside

private theorem Token.InParameters.append (h : t.InParameters ts) (us : List Token) :
    t.InParameters (us ++ ts) := by
  obtain ⟨front, word, opening, inside, rest, rfl, h⟩ := h
  exact ⟨us ++ front, word, opening, inside, rest, (List.append_assoc ..).symm, h⟩

/-- An illegal token among nested ones is a parameter of a type. -/
theorem Nested.inParameters {inType : Bool} (h : Nested inType closers ts)
    (hclosers : .illegal ∉ closers) (ht : t ∈ ts) (hkind : t.kind = .illegal) :
    t.InParameters ts := by
  induction h with
  | nil => exact absurd ht List.not_mem_nil
  | @plain _ _ u _ legal rest ih =>
    rcases List.mem_cons.mp ht with rfl | ht
    · rw [hkind] at legal
      contradiction
    · exact (ih hclosers ht).append [u]
  | @opens _ _ _ u _ opening rest ih =>
    rcases List.mem_cons.mp ht with rfl | ht
    · rw [hkind] at opening
      contradiction
    · refine (ih ?_ ht).append [u]
      rw [List.mem_cons, not_or]
      refine ⟨?_, hclosers⟩
      rintro rfl
      exact closing?_ne_illegal _ opening
  | @closes _ _ u _ rest ih =>
    rw [List.mem_cons, not_or] at hclosers
    rcases List.mem_cons.mp ht with rfl | ht
    · exact absurd hkind.symm hclosers.1
    · exact (ih hclosers.2 ht).append [u]
  | @parameters _ word opening inside rest hword hopening group hrest ih =>
    rcases List.mem_cons.mp ht with rfl | ht
    · rw [Token.takesParameters, hkind] at hword
      contradiction
    · rcases List.mem_cons.mp ht with rfl | ht
      · rw [hkind] at hopening
        contradiction
      · rcases List.mem_append.mp ht with ht | ht
        · exact ⟨[], word, opening, inside, rest, rfl, hword, hopening, group, ht⟩
        · have happend := (ih hclosers ht).append (word :: opening :: inside)
          exact happend

/-- What is left behind a group is what its tokens are followed by. -/
theorem endsGroup_of_skipGroup {depth : Nat} {rest : List Token}
    (h : skipGroup (depth + 1) ts = (rest, true)) :
    ∃ inside, ts = inside ++ rest ∧ EndsGroup depth inside := by
  induction ts generalizing depth with
  | nil => simp [skipGroup] at h
  | cons t ts ih =>
    simp only [skipGroup] at h
    split at h
    · next hopen =>
      obtain ⟨inside, rfl, hinside⟩ := ih h
      exact ⟨t :: inside, rfl, .opens hopen hinside⟩
    · next hclose =>
      split at h
      · next hdepth =>
        obtain rfl : depth = 0 := by omega
        obtain ⟨rfl, -⟩ := Prod.mk.inj h
        exact ⟨[t], rfl, .last hclose⟩
      · obtain ⟨outer, rfl⟩ : ∃ d, depth = d + 1 := ⟨depth - 1, by omega⟩
        obtain ⟨inside, rfl, hinside⟩ := ih h
        exact ⟨t :: inside, rfl, .closes hclose hinside⟩
    · next hopen hclose =>
      obtain ⟨inside, rfl, hinside⟩ := ih h
      exact ⟨t :: inside, rfl, .other hopen hclose hinside⟩

/-! ### Tokens of a text -/

/-- The tokens of a text from some place on. -/
def Lexed (ts : List Token) : Prop := ∃ c : Cursor, c.tokens = ts

/-- The first token is the next one, and the others are those behind it. None of them is the end. -/
theorem Cursor.next_of_tokens {c : Cursor} (h : c.tokens = t :: ts) :
    c.next.1 = t ∧ c.next.2.tokens = ts ∧ t.kind ≠ .eof := by
  rw [Cursor.tokens] at h
  split at h
  · contradiction
  · next hkind =>
    obtain ⟨rfl, rfl⟩ := List.cons.inj h
    exact ⟨rfl, rfl, hkind⟩

/-- The tokens behind the first one are those of the text behind it. -/
theorem Lexed.tail (h : Lexed (t :: ts)) : Lexed ts := by
  obtain ⟨c, hc⟩ := h
  exact ⟨_, (Cursor.next_of_tokens hc).2.1⟩

/-- So are those behind any others. -/
theorem Lexed.behind (h : Lexed (us ++ ts)) : Lexed ts := by
  induction us with
  | nil => exact h
  | cons u us ih => exact ih h.tail

/-! ### Stems of names -/

/-- In the stem of a name, a character that names do not start with stands behind one of them. -/
theorem isNameChar_of_stem {cs ds : List Char} {c d : Char}
    (h : isNameStem (cs ++ c :: d :: ds) = true) (hd : isNameChar d = true)
    (hstart : isNameStart d = false) : isNameChar c = true := by
  have hpart {part as bs : List Char} (hpart : part = ['*'] ∨ isSimpleName part = true)
      (heq : part = as ++ c :: d :: bs) : isNameChar c = true := by
    rcases hpart with rfl | hpart
    · have hlength := congrArg List.length heq
      simp only [List.length_append, List.length_cons, List.length_nil] at hlength
      omega
    · exact (isName_of_isSimpleName hpart).forall_isNameChar c (by simp [heq])
  rcases isNameStem_cases h with h | ⟨q, l, heq, hq, hl⟩
  · exact hpart h rfl
  · have hbehind : l ≠ d :: ds := by
      rintro rfl
      rcases hl with hl | hl | hl
      · contradiction
      · obtain ⟨rfl, -⟩ := List.cons.inj hl
        exact absurd hd (by decide)
      · obtain ⟨e, es, hes, he, -⟩ := (isName_of_isSimpleName hl).start
        obtain ⟨rfl, -⟩ := List.cons.inj hes
        rw [hstart] at he
        contradiction
    rcases List.append_eq_append_iff.mp heq with ⟨as, rfl, has⟩ | ⟨as, rfl, has⟩
    · match as, has with
      | [], has => exact absurd (List.cons.inj has).2.symm hbehind
      | [_], has =>
        obtain ⟨-, has⟩ := List.cons.inj has
        obtain ⟨rfl, -⟩ := List.cons.inj has
        exact absurd hd (by decide)
      | _ :: _ :: _, has =>
        obtain ⟨hc, has⟩ := List.cons.inj has
        obtain ⟨hd, -⟩ := List.cons.inj has
        exact hpart hq (by rw [hc, hd])
    · match as, has with
      | [], has => exact absurd (List.cons.inj has).2 hbehind
      | _ :: _, has =>
        obtain ⟨-, rfl⟩ := List.cons.inj has
        refine hpart (hl.resolve_left ?_) rfl
        simp

/-- No name ends with a hyphen. -/
theorem isSimpleName_hyphen (cs : List Char) : isSimpleName (cs ++ ['-']) = false := by
  by_contra h
  rw [Bool.not_eq_false] at h
  have hyphens := (isName_of_isSimpleName h).hyphens
  have hle := (dropHyphens_initial cs).length_le
  rw [dropHyphens, List.reverse_append, List.reverse_singleton, List.singleton_append,
    List.dropWhile_cons_of_pos (by decide), ← dropHyphens] at hyphens
  rw [hyphens, List.length_append, List.length_singleton] at hle
  omega

/-- No stem of a name ends with a hyphen. -/
theorem isNameStem_hyphen (cs : List Char) : isNameStem (cs ++ ['-']) = false := by
  by_contra h
  rw [Bool.not_eq_false] at h
  have hpart {part as : List Char} (hpart : part = ['*'] ∨ isSimpleName part = true)
      (heq : part = as ++ ['-']) : False := by
    rcases hpart with rfl | hpart
    · have hlast := congrArg List.getLast? heq
      simp at hlast
    · rw [heq, isSimpleName_hyphen] at hpart
      contradiction
  rcases isNameStem_cases h with h | ⟨q, l, heq, -, hl⟩
  · exact hpart h rfl
  · rcases List.eq_nil_or_concat l with rfl | ⟨as, c, rfl⟩
    · have hlast := congrArg List.getLast? heq
      simp at hlast
    · rw [List.concat_eq_append, ← List.cons_append, ← List.append_assoc] at heq
      obtain ⟨-, hlast⟩ := List.append_inj' heq rfl
      obtain ⟨rfl, -⟩ := List.cons.inj hlast
      exact hpart (hl.resolve_left (by simp)) List.concat_eq_append

/-! ### Tokens that are joined -/

/-- Where the hyphens at the end are dropped, only hyphens are. -/
theorem exists_hyphens (cs : List Char) :
    ∃ hyphens, dropHyphens cs ++ hyphens = cs ∧ ∀ c ∈ hyphens, c = '-' := by
  refine ⟨(cs.reverse.takeWhile (· == '-')).reverse, ?_, fun c hc => ?_⟩
  · rw [dropHyphens, ← List.reverse_append, List.takeWhile_append_dropWhile, List.reverse_reverse]
  · have hmem := List.mem_takeWhile_imp (List.mem_reverse.mp hc)
    exact beq_iff_eq.mp hmem

/-- How a token is found: by its first character, or as a name, or as an operator. -/
theorem lexeme_view (c : Char) (cs : List Char) :
    ((Text.isDigit c || (c == '.' && startsWithDigit cs)) = true ∧
        (lexeme (c :: cs)).1 ∈ [.integer, .decimal, .double]) ∨
      ((c == '\x22' || c == '\x27') = true ∧ (lexeme (c :: cs)).1 ∈ [.string, .illegal]) ∨
      (∃ name rest, scanName (c :: cs) = some (name, rest) ∧
        lexeme (c :: cs) = (.name, name.length)) ∨
      scanName (c :: cs) = none ∧
        ((∃ s ∈ symbols, s.1 <+: c :: cs ∧ lexeme (c :: cs) = (s.2, s.1.length)) ∨
          (∀ s ∈ symbols, ¬ s.1 <+: c :: cs) ∧ (lexeme (c :: cs)).1 = .illegal) := by
  by_cases hdigit : (Text.isDigit c || (c == '.' && startsWithDigit cs)) = true
  · refine Or.inl ⟨hdigit, ?_⟩
    simp only [lexeme, if_pos hdigit, scanNumeral]
    split
    · decide
    · split <;> decide
  · refine Or.inr ?_
    simp only [lexeme, if_neg hdigit]
    by_cases hquote : (c == '\x22' || c == '\x27') = true
    · refine Or.inl ⟨hquote, ?_⟩
      rw [if_pos hquote]
      split
      · exact List.mem_cons_self
      · exact List.mem_cons_of_mem _ List.mem_cons_self
    · refine Or.inr ?_
      rw [if_neg hquote]
      cases hname : scanName (c :: cs) with
      | some found => exact Or.inl ⟨found.1, found.2, rfl, rfl⟩
      | none =>
        refine Or.inr ⟨rfl, ?_⟩
        cases hsymbol : symbols.find? fun s => s.1.isPrefixOf (c :: cs) with
        | some s =>
          have hprefix := List.find?_some hsymbol
          exact Or.inl ⟨s, List.mem_of_find?_eq_some hsymbol,
            List.isPrefixOf_iff_prefix.mp hprefix, rfl⟩
        | none =>
          refine Or.inr ⟨fun s hs hprefix => ?_, rfl⟩
          exact List.find?_eq_none.mp hsymbol s hs (List.isPrefixOf_iff_prefix.mpr hprefix)

/-- Behind a name that has been cut off stands no character of it, but for the hyphens that it does
not end with. -/
theorem eq_hyphen_behind_name {cs ds : List Char} {c : Char} (h : (lexeme cs).1 = .name)
    (hrest : cs.drop (lexeme cs).2 = c :: ds) (hc : isNameChar c = true) : c = '-' := by
  cases cs with
  | nil => contradiction
  | cons d cs =>
    have hsymbols : ∀ s ∈ symbols, s.2 ≠ .name := by decide
    rcases lexeme_view d cs with ⟨-, hkind⟩ | ⟨-, hkind⟩ | ⟨name, rest, hscan, hlexeme⟩ |
      ⟨-, ⟨s, hs, -, hlexeme⟩ | ⟨-, hkind⟩⟩
    · rw [h] at hkind
      exact absurd hkind (by decide)
    · rw [h] at hkind
      exact absurd hkind (by decide)
    · by_cases hd : isNameStart d = true
      · rw [scanName, if_pos hd] at hscan
        obtain rfl := congrArg Prod.fst (Option.some.inj hscan)
        obtain ⟨hyphens, hsplit, hall⟩ := exists_hyphens (d :: cs.takeWhile isNameChar)
        have htext : d :: cs = dropHyphens (d :: cs.takeWhile isNameChar) ++
            (hyphens ++ cs.dropWhile isNameChar) := by
          rw [← List.append_assoc, hsplit, List.cons_append, List.takeWhile_append_dropWhile]
        rw [hlexeme, htext, List.drop_left] at hrest
        cases hyphens with
        | nil =>
          have hhead := List.head?_dropWhile_not isNameChar cs
          rw [show cs.dropWhile isNameChar = c :: ds from hrest] at hhead
          simp [hc] at hhead
        | cons e es =>
          obtain ⟨rfl, -⟩ := List.cons.inj hrest
          exact hall _ List.mem_cons_self
      · rw [scanName, if_neg hd] at hscan
        contradiction
    · rw [hlexeme] at h
      exact absurd h (hsymbols s hs)
    · rw [h] at hkind
      contradiction

/-- What starts with a character of the stem of a name is a name, or an operator, or starts with a
character that no name starts with. -/
theorem lexeme_cases {c : Char} {cs : List Char} (hc : isNameChar c = true ∨ c = ':' ∨ c = '*') :
    (isNameChar c = true ∧ isNameStart c = false ∧ c ≠ '-') ∨ (lexeme (c :: cs)).1 = .name ∨
      ∃ s ∈ symbols, s.1 <+: c :: cs ∧ lexeme (c :: cs) = (s.2, s.1.length) := by
  have hne {d : Char} (hd : isNameChar d = false ∧ d ≠ ':' ∧ d ≠ '*') : (c == d) = false := by
    refine beq_false_of_ne ?_
    rintro rfl
    rw [hd.1] at hc
    exact hc.elim (fun h => absurd h (by decide)) fun h => h.elim hd.2.1 hd.2.2
  rcases lexeme_view c cs with ⟨hdigit, -⟩ | ⟨hquote, -⟩ | ⟨name, rest, -, hlexeme⟩ |
    ⟨hscan, hsymbol | ⟨hsymbol, -⟩⟩
  · rw [hne (d := '.') (by decide), Bool.false_and, Bool.or_false] at hdigit
    refine Or.inl ⟨isNameChar_of_isDigit hdigit, ?_, ?_⟩
    · by_contra hstart
      rw [Bool.not_eq_false] at hstart
      rw [isDigit_of_isNameStart hstart] at hdigit
      contradiction
    · rintro rfl
      exact absurd hdigit (by decide)
  · rw [hne (by decide), hne (by decide)] at hquote
    contradiction
  · exact Or.inr (Or.inl (congrArg Prod.fst hlexeme))
  · exact Or.inr (Or.inr hsymbol)
  · have hmark : ∀ s ∈ symbols, s.1 ≠ [c] := by
      rintro s hs heq
      exact hsymbol s hs (by rw [heq]; exact ⟨cs, rfl⟩)
    refine Or.inl ⟨hc.resolve_right ?_, ?_, ?_⟩
    · rintro (rfl | rfl)
      · exact hmark ([':'], .colon) (by decide) rfl
      · exact hmark (['*'], .star) (by decide) rfl
    · by_contra hstart
      rw [Bool.not_eq_false] at hstart
      rw [scanName, if_pos hstart] at hscan
      contradiction
    · rintro rfl
      exact hmark (['-'], .minus) (by decide) rfl

/-- Where a name may go on: behind a name, a colon or a star. -/
def GoesOn (u : Token) (joined : List Char) : Prop :=
  u.kind = .name ∨ joined.getLast? = some ':' ∨ joined.getLast? = some '*'

/-- The operators that are made of characters of stems. -/
theorem symbol_of_stem : ∀ s ∈ symbols, (∀ c ∈ s.1, isNameChar c = true ∨ c = ':' ∨ c = '*') →
    s.1 = ['-'] ∨ s.2.isPlain = true ∧ (s.1.getLast? = some ':' ∨ s.1.getLast? = some '*') := by
  decide

/-- The characters of a token without space in front of it follow what is left behind the token before
it. -/
theorem Cursor.exists_lexeme {c : Cursor} (h : c.next.1.kind ≠ .eof) :
    ∃ d ds, (splitTrivia c.rest).2 = d :: ds ∧ c.next.1.kind = (lexeme (d :: ds)).1 ∧
      c.next.1.text.toList = (d :: ds).take (lexeme (d :: ds)).2 ∧
      (c.next.1.spaced = false → c.rest = d :: ds) := by
  have hne : (splitTrivia c.rest).2 ≠ [] := fun hnil => h (lexeme_kind_eq_eof.mpr hnil)
  obtain ⟨d, ds, hcs⟩ := List.exists_cons_of_ne_nil hne
  refine ⟨d, ds, hcs, ?_, ?_, fun hspaced => ?_⟩
  · rw [← hcs]
    rfl
  · rw [← hcs]
    exact String.toList_ofList
  · simp only [next, Bool.or_eq_false_iff, Bool.not_eq_false', List.isEmpty_iff] at hspaced
    have htrivia := append_splitTrivia c.rest
    rw [hspaced.1, hcs, List.nil_append] at htrivia
    exact htrivia.symm

/-- A token that is joined is plain, and the name may go on behind it. -/
theorem plain_of_joined {joined : List Char} (hlexed : Lexed (u :: t :: ts))
    (hspaced : t.spaced = false) (hu : GoesOn u joined)
    (hstem : isNameStem (joined ++ t.text.toList) = true) :
    t.kind.isPlain = true ∧ GoesOn t (joined ++ t.text.toList) := by
  obtain ⟨before, hbefore⟩ := hlexed
  obtain ⟨rfl, hts, -⟩ := Cursor.next_of_tokens hbefore
  obtain ⟨ht, -, hkind⟩ := Cursor.next_of_tokens hts
  rw [← ht] at hkind
  obtain ⟨d, ds, -, htkind, htext, hrest⟩ := Cursor.exists_lexeme hkind
  rw [ht] at htkind htext hrest
  rw [htkind]
  have hallowed : ∀ c ∈ (d :: ds).take (lexeme (d :: ds)).2,
      isNameChar c = true ∨ c = ':' ∨ c = '*' := by
    intro c hc
    rw [← htext] at hc
    exact isNameChar_of_isNameStem hstem (List.mem_append_right _ hc)
  obtain ⟨n, hn⟩ := Nat.exists_eq_add_of_le' (lexeme_pos d ds)
  have hfirst := hallowed d (by rw [hn, List.take_succ_cons]; exact List.mem_cons_self)
  rcases @lexeme_cases d ds hfirst with ⟨hd, hstart, hhyphen⟩ | hname | ⟨s, hs, hprefix, hlexeme⟩
  · exfalso
    rcases hu with hu | hu
    · exact hhyphen (eq_hyphen_behind_name hu (hrest hspaced) hd)
    · rw [htext, hn, List.take_succ_cons] at hstem
      obtain ⟨x, hx, hlast⟩ : ∃ x, isNameChar x = false ∧ joined.getLast? = some x := by
        rcases hu with hu | hu
        · exact ⟨':', by decide, hu⟩
        · exact ⟨'*', by decide, hu⟩
      obtain ⟨front, rfl⟩ := List.getLast?_eq_some_iff.mp hlast
      rw [List.append_assoc, List.singleton_append] at hstem
      rw [isNameChar_of_stem hstem hd hstart] at hx
      contradiction
  · exact ⟨by rw [hname]; rfl, Or.inl (htkind.trans hname)⟩
  · have hsymbol : t.text.toList = s.1 := by
      rw [htext, hlexeme]
      exact (List.prefix_iff_eq_take.mp hprefix).symm
    rw [← htext, hsymbol] at hallowed
    rw [hsymbol] at hstem ⊢
    rcases symbol_of_stem s hs hallowed with hminus | ⟨hplain, hlast⟩
    · rw [hminus, isNameStem_hyphen] at hstem
      contradiction
    · rw [hlexeme]
      refine ⟨hplain, Or.inr ?_⟩
      rw [List.getLast?_append]
      rcases hlast with hlast | hlast
      · exact Or.inl (by rw [hlast]; rfl)
      · exact Or.inr (by rw [hlast]; rfl)

private theorem joinName_plain {joined : List Char} (hlexed : Lexed (u :: ts)) (hu : GoesOn u joined)
    (best : List Char × List Token) :
    (joinName best joined ts).2 = best.2 ∨
      ∃ us, (∀ t ∈ us, t.kind.isPlain = true) ∧ ts = us ++ (joinName best joined ts).2 := by
  induction ts generalizing u joined best with
  | nil => exact Or.inl rfl
  | cons t ts ih =>
    simp only [joinName]
    split
    · exact Or.inl rfl
    · next hjoins =>
      simp only [Bool.or_eq_true, Bool.not_eq_true', not_or, Bool.not_eq_true, Bool.not_eq_false]
        at hjoins
      obtain ⟨hplain, ht⟩ := plain_of_joined hlexed hjoins.1 hu hjoins.2
      have hbehind := ih hlexed.tail ht
      split
      · rcases hbehind best with heq | ⟨us, hus, heq⟩
        · exact Or.inl heq
        · exact Or.inr ⟨t :: us, List.forall_mem_cons.mpr ⟨hplain, hus⟩, congrArg (t :: ·) heq⟩
      · rcases hbehind (joined ++ t.text.toList, ts) with heq | ⟨us, hus, heq⟩
        · exact Or.inr ⟨[t], by simpa using hplain, by rw [heq]; rfl⟩
        · exact Or.inr ⟨t :: us, List.forall_mem_cons.mpr ⟨hplain, hus⟩, congrArg (t :: ·) heq⟩

/-- The only token of its kind is the star. -/
theorem Lexed.text_star (h : Lexed (t :: ts)) (ht : t.kind = .star) : t.text.toList = ['*'] := by
  obtain ⟨c, hc⟩ := h
  obtain ⟨rfl, -, hne⟩ := Cursor.next_of_tokens hc
  obtain ⟨d, ds, -, hkind, htext, -⟩ := Cursor.exists_lexeme hne
  rw [ht] at hkind
  rw [htext]
  have hsymbols : ∀ s ∈ symbols, s.2 = .star → s.1 = ['*'] := by decide
  have hname {k : TokenKind} {n : Nat} (h : lexeme (d :: ds) = (k, n)) : k = .star := by
    rw [h] at hkind
    exact hkind.symm
  rcases lexeme_view d ds with ⟨-, hkind'⟩ | ⟨-, hkind'⟩ | ⟨name, rest, -, hlexeme⟩ |
    ⟨-, ⟨s, hs, hprefix, hlexeme⟩ | ⟨-, hkind'⟩⟩
  · rw [← hkind] at hkind'
    exact absurd hkind' (by decide)
  · rw [← hkind] at hkind'
    exact absurd hkind' (by decide)
  · exact absurd (hname hlexeme) (by decide)
  · rw [hlexeme, ← hsymbols s hs (hname hlexeme)]
    exact (List.prefix_iff_eq_take.mp hprefix).symm
  · rw [← hkind] at hkind'
    contradiction

/-- A name is made of plain tokens. -/
theorem splitName_plain (hlexed : Lexed (t :: ts)) (ht : t.kind = .name ∨ t.kind = .star) :
    ∃ us, (∀ u ∈ us, u.kind.isPlain = true) ∧ t :: ts = us ++ (splitName (t :: ts)).2 := by
  have hplain : t.kind.isPlain = true := by
    rcases ht with ht | ht <;> rw [ht] <;> rfl
  have hgoesOn : GoesOn t t.text.toList := by
    rcases ht with ht | ht
    · exact Or.inl ht
    · refine Or.inr (Or.inr ?_)
      rw [hlexed.text_star ht]
      rfl
  rw [splitName]
  rcases joinName_plain hlexed hgoesOn (t.text.toList, ts) with heq | ⟨us, hus, heq⟩
  · exact ⟨[t], by simpa using hplain, by rw [heq]; rfl⟩
  · exact ⟨t :: us, List.forall_mem_cons.mpr ⟨hplain, hus⟩, congrArg (t :: ·) heq⟩

end TreeQuery
