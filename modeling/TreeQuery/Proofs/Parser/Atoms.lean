import TreeQuery.Proofs.Parser.Constructors

/-!
# Reading atoms and calls

Expressions that are read off their first token: literals, variables, the context item and lookups.
Calls and functions by their name start with a name that may be spread over several tokens.
-/

namespace TreeQuery

/-- A single dot is a token if neither a digit nor another dot follows. -/
theorem starts_dot {cs : List Char} (h : Breaks cs) : Starts ('.' :: cs) .dot "." cs := by
  refine @starts_of_lexeme '.' [] _ _ (by decide) (Or.inl (by decide)) ?_
  cases cs with
  | nil => rfl
  | cons c cs =>
    obtain ⟨hname, hdot, -⟩ := h c rfl
    have hdigit : Text.isDigit c = false := by
      by_contra hdigit
      rw [isNameChar_of_isDigit (by simpa using hdigit)] at hname
      contradiction
    have hscan : scanName ('.' :: c :: cs) = none := rfl
    have hpoint : Text.isDigit '.' = false := by decide
    simp [lexeme, hscan, startsWithDigit, hdigit, hpoint, symbols, Ne.symm hdot]

private theorem Text.unquote_quoted (s : String) : Text.unquote (Text.quoted s).toList = s.toList := by
  rw [Text.quoted, String.toList_ofList]
  exact Text.unquote_quote (by decide) s.toList

end TreeQuery

namespace TreeQuery.Parser

variable {e : Expr} {levels : Nat} {cs rest : List Char}

/-! ### Single tokens -/

/-- A form that is read by its first token. -/
theorem legible_of_token {kind : TokenKind} {text : String} (tail : List Char → List Char)
    (h : ¬ e.IsSequence)
    (hstarts : ∀ rest, NameEnds rest → Starts (e.text ++ rest) kind text (tail rest))
    (hhead : ∀ rest, NameEnds rest → (e.text ++ rest).head? ≠ some ':')
    (hkind : kind ∉ [.rightParen, .rightBracket, .rightBrace, .comma, .eof, .question])
    (hreads : ∀ levels rest, NameEnds rest → Starts (e.text ++ rest) kind text (tail rest) →
      Reads (e.nesting 0 ≤ levels + 1) (primary (operandAt levels) levels) (e.text ++ rest) e.reread
        rest) : e.Legible := by
  refine legible_of_opens (Or.inl h) (fun rest hrest => ?_) (opens_of_primary fun levels rest hrest => ?_)
  · exact begins_of_starts (hstarts rest hrest) (hhead rest hrest) hkind
  · rw [Expr.levels_of_not_sequence h]
    exact hreads levels rest hrest (hstarts rest hrest)

/-- Integers without a sign are read back. -/
theorem legible_integer {i : Int64} (h : 0 ≤ i.toInt) : (Expr.literal (.integer i)).Legible := by
  refine legible_of_token id id (fun rest hrest => starts_renderInteger h hrest.breaks)
    (fun rest hrest hhead => ?_) (by decide) fun levels rest _ hstarts => ?_
  · have hdigits : (Expr.literal (.integer i)).text = Nat.toDigits 10 i.toInt.toNat :=
      toList_renderInteger h
    obtain ⟨d, ds, hcons⟩ := List.exists_cons_of_ne_nil
      (Nat.toDigits_ne_nil (n := i.toInt.toNat) (b := 10))
    rw [hdigits, hcons] at hhead
    have hdigit : Text.isDigit d = true := isDigit_of_mem_toDigits (hcons ▸ List.mem_cons_self)
    rw [Option.some.inj hhead] at hdigit
    exact absurd hdigit (by decide)
  · refine Reads.congr ?_ (iff_true_intro (Nat.le_add_left 1 levels)).symm
    refine reads_current fun t hkind _ => ?_
    rw [hkind, hstarts.kind]
    refine reads_advance fun t _ htext => ?_
    rw [hstarts.text] at htext
    rw [hstarts.rest, integerLiteral, htext, read?_renderInteger h]
    exact reads_pure

/-- Strings are read back. -/
theorem legible_string (s : String) : (Expr.literal (.string s)).Legible := by
  refine legible_of_token id id (fun rest hrest => starts_quoted s hrest.breaks)
    (fun rest _ => ?_) (by decide) fun levels rest _ hstarts => ?_
  · have htext : (Expr.literal (.string s)).text = '\x22' :: (Text.double '\x22' s.toList ++ ['\x22']) := by
      change (Text.quoted s).toList = _
      rw [Text.quoted, String.toList_ofList, Text.quote]
      rfl
    rw [htext]
    exact (by decide : some '\x22' ≠ some ':')
  · refine Reads.congr ?_ (iff_true_intro (Nat.le_add_left 1 levels)).symm
    refine reads_current fun t hkind _ => ?_
    rw [hkind, hstarts.kind]
    refine reads_advance fun t _ htext => ?_
    rw [hstarts.text] at htext
    rw [hstarts.rest, htext, Text.unquote_quoted, String.ofList_toList]
    exact reads_pure

/-- The context item is read back. -/
theorem legible_contextItem : Expr.contextItem.Legible := by
  refine legible_of_token id id (fun rest hrest => starts_dot hrest.breaks)
    (fun rest _ => (by decide : some '.' ≠ some ':')) (by decide) fun levels rest _ hstarts => ?_
  refine Reads.congr ?_ (iff_true_intro (Nat.le_add_left 1 levels)).symm
  refine reads_current fun t hkind _ => ?_
  rw [hkind, hstarts.kind]
  refine reads_advance fun _ _ _ => ?_
  rw [hstarts.rest]
  exact reads_pure

/-- Variables are read back. -/
theorem legible_var {name : QName} (h : name.WellFormed) : (Expr.var name).Legible := by
  have htext (rest : List Char) : (Expr.var name).text ++ rest = '$' :: (name.render.toList ++ rest) := by
    change ("$" ++ name.render).toList ++ rest = _
    simp
  refine legible_of_token (fun rest => name.render.toList ++ rest) id
    (fun rest _ => htext rest ▸ starts_mark (c := '$') rfl _) (fun rest _ => ?_) (by decide)
    fun levels rest hrest hstarts => ?_
  · rw [htext]
    simp
  · refine Reads.congr ?_ (iff_true_intro (Nat.le_add_left 1 levels)).symm
    refine reads_current fun t hkind _ => ?_
    rw [hkind, hstarts.kind]
    refine reads_advance fun _ _ _ => ?_
    rw [hstarts.rest]
    exact (reads_qualifiedName h hrest _).then reads_pure

/-- A question mark in front of a key is no placeholder. -/
theorem begins_lookup {key : LookupKey} (hformed : key.WellFormed) (h : ∀ c ∈ key.children, c.Legible)
    (hrest : NameEnds rest) : Begins ('?' :: (key.render.toList ++ rest)) := by
  have hkind : nextKind (key.render.toList ++ rest) ∈ [.name, .integer, .leftParen, .star] := by
    cases key with
    | name word => rw [LookupKey.render, (starts_word hformed hrest.breaks).kind]; decide
    | index i => rw [LookupKey.render, (starts_renderInteger hformed hrest.breaks).kind]; decide
    | computed e =>
      have he := h e (List.mem_singleton.mpr rfl)
      rw [LookupKey.render, Expr.toList_parenthesized,
        (starts_leftParen (he.beginsAlone _ (nameEnds_rightParen rest)).head).kind]
      decide
    | all =>
      rw [show LookupKey.all.render.toList ++ rest = '*' :: rest from rfl, (starts_mark rfl rest).kind]
      decide
  have hall : ∀ k ∈ [TokenKind.name, .integer, .leftParen, .star], k ≠ .comma ∧ k ≠ .rightParen := by
    decide
  exact begins_question (hall _ hkind)

/-- Lookups in the context item are read back. -/
theorem legible_lookup {key : LookupKey} (hformed : key.WellFormed)
    (h : ∀ c ∈ key.children, c.Legible) : (Expr.lookup key).Legible := by
  refine legible_of_opens (Or.inl id) (fun rest hrest => ?_) (opens_of_primary fun levels rest hrest => ?_)
  · rw [Expr.text_lookup]
    exact begins_lookup hformed h hrest
  · have hquestion := starts_mark (c := '?') rfl (key.render.toList ++ rest)
    rw [Expr.text_lookup, Expr.levels_of_not_sequence id]
    refine Reads.congr ?_ (show key.nesting ≤ levels ↔ _ by simp only [Expr.nesting]; omega)
    refine reads_current fun t hkind _ => ?_
    rw [hkind, hquestion.kind]
    refine reads_advance fun _ _ _ => ?_
    rw [hquestion.rest]
    exact (reads_lookupKey hformed h hrest levels).andThen (fun _ => persists_pure _) reads_pure

/-! ### Named functions -/

variable {fits : Prop} {after : List Char} {name : QName}

/-- The first token of a qualified name is the name, or its qualifier in front of a colon. -/
theorem exists_starts_render (h : name.WellFormed) (hrest : NameEnds rest) :
    ∃ word rest', Starts (name.render.toList ++ rest) .name word rest' ∧
      (name.qualifier = none ∧ word = name.localName ∧ rest' = rest ∨ nextKind rest' = .colon) := by
  obtain ⟨hlocal, ⟨hnone, htext⟩ | ⟨q, -, hq, htext⟩⟩ := h.toList_render
  · rw [htext]
    exact ⟨_, rest, starts_word h.localName hrest.breaks, Or.inl ⟨hnone, rfl, rfl⟩⟩
  · rw [htext, List.append_assoc]
    exact ⟨q, _, starts_word hq.isSimpleName (breaks_cons (by decide) _),
      Or.inr (starts_colon_isNamePart (Or.inl hlocal) rest).kind⟩

/-- A name is read as such, whatever word it starts with, unless the token behind it makes it a keyword or
an axis. In front of a parenthesis it must not be reserved. -/
theorem reads_wordOperand_named (h : name.WellFormed) (hrest : NameEnds rest)
    (hkind : nextKind rest ∉ [.dollar, .leftBrace, .colonColon])
    (hfree : nextKind rest = .leftParen → ¬ name.IsReserved)
    (hnamed : Reads fits (namedOperand (operandAt levels)) (name.render.toList ++ rest) e after) :
    Reads fits (primary (operandAt levels) levels) (name.render.toList ++ rest) e after := by
  obtain ⟨word, rest', hstarts, hname⟩ := exists_starts_render h hrest
  -- Behind the first word stands what stands behind the name, or the colon of the name itself.
  have hbehind : nextKind rest' ∉ [.dollar, .leftBrace, .colonColon] := by
    rcases hname with ⟨-, -, rfl⟩ | hcolon
    · exact hkind
    · rw [hcolon]
      decide
  have hreserved : nextKind rest' = .leftParen →
      word ≠ "if" ∧ word ≠ "function" ∧ (KindTest.ofKeyword? word).isSome = false := by
    intro hparen
    rcases hname with ⟨hnone, rfl, rfl⟩ | hcolon
    · have hfree := hfree hparen
      simp only [QName.IsReserved, hnone, true_and, not_or, Bool.not_eq_true] at hfree
      exact hfree
    · rw [hcolon] at hparen
      contradiction
  refine reads_primary_word hstarts (reads_current fun t _ ht => reads_following.then ?_)
  rw [ht, hstarts.text, hstarts.rest]
  generalize hk : nextKind rest' = kind at hbehind hreserved
  split
  · exact absurd (by decide) hbehind
  · exact absurd (by decide) hbehind
  · exact absurd (by decide) hbehind
  · exact absurd (by decide) hbehind
  · exact absurd rfl (hreserved rfl).1
  · exact absurd rfl (hreserved rfl).2.1
  · exact absurd (by decide) hbehind
  · exact absurd (by decide) hbehind
  · exact absurd (by decide) hbehind
  · refine (reads_isAtKindTest hstarts).then ?_
    have hfalse : (nextKind rest' == .leftParen && (KindTest.ofKeyword? word).isSome) = false := by
      rw [hk]
      by_cases hparen : kind = .leftParen
      · rw [(hreserved hparen).2.2, Bool.and_false]
      · rw [beq_false_of_ne hparen, Bool.false_and]
    rw [hfalse]
    exact hnamed

/-- Calls of functions by their names are read back. -/
theorem legible_call {args : List Argument} (hformed : (Expr.call name args).Formed)
    (h : ∀ c ∈ args.flatMap Argument.children, c.Legible) : (Expr.call name args).Legible := by
  obtain ⟨hname, hreserved⟩ := hformed
  have hends (cs : List Char) : NameEnds ('(' :: cs) := nameEnds_of_kind (by simp) cs
  refine legible_of_opens (Or.inl id) (fun rest _ => ?_) (opens_of_primary fun levels rest _ => ?_)
  · obtain ⟨word, rest', hstarts, -⟩ :=
      exists_starts_render hname (hends (Argument.allText args ++ ')' :: rest))
    rw [Expr.text_call]
    exact begins_of_starts hstarts (hname.head_ne _) (by decide)
  · have hopen : Starts ('(' :: (Argument.allText args ++ ')' :: rest)) .leftParen "(" _ :=
      starts_leftParen (head_allText h)
    rw [Expr.text_call, Expr.levels_of_not_sequence id, Expr.reread, Expr.rereadAt,
      Argument.rereadAll_eq]
    refine Reads.congr ?_ (show Argument.nestingAll args ≤ levels ↔ _ by
      simp only [Expr.nesting]; omega)
    refine reads_wordOperand_named hname (hends _) (by rw [hopen.kind]; decide) (fun _ => hreserved) ?_
    refine reads_current fun start _ _ => (reads_takeName hname (hends _)).then ?_
    refine (reads_eat hopen).then ((reads_nameOf hname start).then ?_)
    exact (reads_arguments h levels).andThen (fun _ => persists_pure _) reads_pure

private theorem reads_arity {arity : Nat} (h : arity ≤ maxArity) (hrest : Breaks rest) :
    Reads True Parser.arity ((toString arity).toList ++ rest) arity rest := by
  have hdigits : (toString arity).toList = Nat.toDigits 10 arity := Nat.toList_repr
  have hstarts := starts_toDigits arity hrest
  rw [hdigits]
  refine reads_advance fun t hkind ht => ?_
  rw [hstarts.kind] at hkind
  rw [hstarts.text] at ht
  rw [ht, String.toList_ofList, readNat?_toDigits, hstarts.rest]
  simp only [hkind, h, and_self, if_true]
  exact reads_pure

/-- References to functions are read back. -/
theorem legible_functionRef {arity : Nat} (hformed : (Expr.functionRef name arity).Formed) :
    (Expr.functionRef name arity).Legible := by
  obtain ⟨hname, harity⟩ := hformed
  have hends (cs : List Char) : NameEnds ('#' :: cs) := nameEnds_of_kind (by simp) cs
  refine legible_of_opens (Or.inl id) (fun rest _ => ?_)
    (opens_of_primary fun levels rest hrest => ?_)
  · obtain ⟨word, rest', hstarts, -⟩ :=
      exists_starts_render hname (hends ((toString arity).toList ++ rest))
    rw [Expr.text_functionRef]
    exact begins_of_starts hstarts (hname.head_ne _) (by decide)
  · have hhash := starts_mark (c := '#') rfl ((toString arity).toList ++ rest)
    rw [Expr.text_functionRef]
    refine Reads.congr ?_ (iff_true_intro (Nat.le_add_left 1 levels)).symm
    refine reads_wordOperand_named hname (hends _) (by rw [hhash.kind]; decide)
      (fun hparen => absurd hparen (hhash.kind.trans_ne (by decide))) ?_
    refine reads_current fun start _ _ => (reads_takeName hname (hends _)).then ?_
    refine (reads_eat_of_ne (hhash.kind.trans_ne (by decide))).then ((reads_eat hhash).then ?_)
    exact (reads_nameOf hname start).then ((reads_arity harity hrest.breaks).then reads_pure)

end TreeQuery.Parser
