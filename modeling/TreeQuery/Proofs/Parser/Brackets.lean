import TreeQuery.Proofs.Parser.Accounts

/-!
# Brackets of expressions

The brackets that are open in front of a reader are open behind it: those that it opens it closes, or it
misses them. So the tokens of an expression that is read without errors are nested. A reader goes deeper
once for itself, if it reads an operand, and otherwise for tokens that it takes, and for no token more
than three times.
-/

namespace TreeQuery.Parser

/-- Which tokens may follow an operand as operators: plain ones, and two brackets. -/
theorem infixPrecedence?_kind {t : Token} {precedence : Precedence}
    (h : t.infixPrecedence? = some precedence) :
    t.kind.isPlain = true ∨ t.kind = .leftBracket ∨ t.kind = .leftParen := by
  unfold Token.infixPrecedence? at h
  split at h <;> simp_all [TokenKind.isPlain]

variable {s : ParserState} {b : Account} {inType : Bool} {closers : List TokenKind} {n : Nat}

namespace Carries

/-! ### Tests -/

private theorem kindTestName : Carries kindTestName s ⟨false, closers, n⟩ ⟨false, closers, n⟩ := by
  have hrest (name : Option QName) (s : ParserState) {m : Nat} (hle : n ≤ m) :
      let rest : Parser (Option QName) := do
        if ← Parser.eat .comma then
          let _ ← Parser.qualifiedName "type name"
          let _ ← Parser.eat .question
        return name
      Carries rest s ⟨false, closers, m⟩ ⟨false, closers, n⟩ := by
    refine eat (.plain rfl) (fun s => ?_) (pure hle _)
    refine (qualifiedName _).bind fun _ s => ?_
    refine eat_bind (.plain rfl) (fun s => pure ?_ _) (pure ?_ _)
    · omega
    · omega
  refine eat_bind (.plain rfl) (fun s => isAt_bind (ite (fun _ => ?_) fun hne => absurd rfl hne)) ?_
  · exact hrest none s (Nat.le_add_right ..)
  · refine isAt_bind (ite (fun heq => absurd heq Bool.false_ne_true) fun _ => ?_)
    refine ite (fun _ => ?_) fun _ => ?_
    · exact (qualifiedName _).map.bind fun name s => hrest name s (Nat.le_refl _)
    · exact hrest none s (Nat.le_refl _)

private theorem kindTestTarget : Carries kindTestTarget s ⟨false, closers, n⟩ ⟨false, closers, n⟩ := by
  have htake {text : Token → Option String} (hplain : s.next.kind.isPlain = true) :
      Carries (Parser.advance >>= fun t => Pure.pure (text t)) s
        ⟨false, closers, n⟩ ⟨false, closers, n⟩ :=
    (advance rfl (.plain hplain)).bind fun _ _ => pure (Nat.le_add_right ..) _
  refine isAt (fun hkind => htake (by rw [hkind]; rfl)) ?_
  exact isAt (fun hkind => htake (by rw [hkind]; rfl)) (pure (Nat.le_refl _) _)

/-- By induction on the levels of nesting that are left, one of which a test inside takes. -/
theorem kindTest (levels : Nat) (hname : s.next.kind = .name)
    (hparen : s.behind.next.kind = .leftParen) :
    Carries (kindTest levels) s ⟨inType, closers, n⟩ ⟨false, closers, n⟩ := by
  have hclose {closers : List TokenKind} {n m : Nat} (hle : n ≤ m) (test : KindTest)
      (s : ParserState) :
      let rest : Parser KindTest := do
        let _ ← Parser.expect .rightParen "')'"
        return test
      Carries rest s ⟨false, .rightParen :: closers, m⟩ ⟨false, closers, n⟩ :=
    (expect _ (.closes rfl)).bind fun _ _ => pure hle _
  induction levels using Nat.strongRecOn generalizing s inType closers n with
  | ind levels ih =>
    unfold Parser.kindTest
    refine advance_opening hname hparen rfl fun t _ s => ?_
    have hrest := @hclose closers _ _ (Nat.le_add_right n 6)
    refine ite (fun _ => kindTestName.map.bind hrest) fun _ => ?_
    refine ite (fun _ => kindTestName.map.bind hrest) fun _ => ?_
    refine ite (fun _ => kindTestTarget.map.bind hrest) fun _ => ?_
    refine ite (fun _ => ?_) fun _ => (pure (Nat.le_refl _) _).bind hrest
    refine isAt_bind (following (ite (fun h => ?_) fun _ => hrest _ _))
    rw [Bool.and_eq_true, beq_iff_eq, beq_iff_eq] at h
    -- the only test that holds another one
    split
    · exact error_bind _ (fun s _ => hrest _ s) (Nat.le_refl _)
    · next outer =>
      refine (nested (ih outer (Nat.lt_succ_self _) h.1 h.2)).bind fun _ s => ?_
      exact hclose (Nat.le_add_right n 5) _ s

private theorem nodeTest (levels : Nat) :
    Carries (nodeTest levels) s ⟨inType, closers, n⟩ ⟨false, closers, n⟩ := by
  refine isAtKindTest (fun hname hparen => ?_) ?_
  · exact (kindTest levels hname hparen).bind fun _ _ => pure (Nat.le_refl _) _
  · refine isAt_bind (isAt_bind (ite (fun h => current ?_) fun _ => error_pure _ _))
    rw [Bool.or_eq_true, beq_iff_eq, beq_iff_eq] at h
    exact (takeName h).bind fun _ _ => (nameTestOf _ _).mono (Nat.le_add_right ..)

/-! ### Types -/

private theorem atomicType : Carries atomicType s ⟨inType, closers, n⟩ ⟨false, closers, n⟩ := by
  refine current ((qualifiedName _).bind fun name s => ?_)
  split
  · exact pure (Nat.le_refl _) _
  · exact errorAt_pure _ _ _

private theorem singleType : Carries singleType s ⟨inType, closers, n⟩ ⟨false, closers, n⟩ :=
  atomicType.bind fun _ _ => eat_bind (.plain rfl) (fun _ => pure (Nat.le_add_right ..) _)
    (pure (Nat.le_refl _) _)

private theorem sequenceTypeOf {p : Parser ItemType}
    (hp : Carries p s ⟨true, closers, n⟩ ⟨false, closers, n⟩) :
    Carries (sequenceTypeOf p) s ⟨true, closers, n⟩ ⟨false, closers, n⟩ := by
  refine isAtWord_bind (following (ite (fun h => ?_) fun _ => hp.bind fun type s => ?_))
  · rw [Bool.and_eq_true, beq_iff_eq, Token.isWord, Bool.and_eq_true, beq_iff_eq] at h
    obtain ⟨⟨hname, -⟩, hparen⟩ := h
    refine advance_opening hname hparen rfl fun _ _ s => ?_
    exact (expect _ (.closes rfl)).bind fun _ _ => pure (Nat.le_add_right n 6) _
  · have hpure (occurrence : Occurrence) {m : Nat} (hle : n ≤ m) (s : ParserState) :
        Carries (Pure.pure (SequenceType.items type occurrence)) s
          ⟨false, closers, m⟩ ⟨false, closers, n⟩ := pure hle _
    refine eat (.plain rfl) (hpure _ (Nat.le_add_right n 3)) ?_
    refine eat (.plain rfl) (hpure _ (Nat.le_add_right n 3)) ?_
    exact eat (.plain rfl) (hpure _ (Nat.le_add_right n 3)) (hpure _ (Nat.le_refl n) s)

/-- The parameters of a type are passed over, up to the parenthesis that closes them. -/
theorem skipped (hword : s.next.takesParameters = true)
    (hparen : s.behind.next.kind = .leftParen) :
    Carries (Parser.advance >>= fun _ => skipParameters) s
      ⟨true, closers, n⟩ ⟨false, closers, n⟩ := by
  have hle := (skipGroup_suffix 0 s.behind.tokens).length_le
  have hbehind : s.behind.tokens.length ≤ s.tokens.length := (Parser.advance s).length_le
  have hcalls : s.counters.entered + 3 * (skipGroup 0 s.behind.tokens).1.length + n ≤
      s.counters.entered + 3 * s.tokens.length + n := by omega
  have hstate : ((Parser.advance >>= fun _ => skipParameters) s).state =
      (skipParameters s.behind).state := rfl
  by_cases hfound : (skipGroup 0 s.behind.tokens).2 = true
  · intro final hsettles
    rw [hstate, skipParameters, if_pos hfound] at hsettles
    obtain ⟨hentered, herrors, hnested⟩ := hsettles
    refine ⟨hentered.trans hcalls, herrors, fun hfinal hlexed => ?_⟩
    have hname : s.next.kind = .name := by
      rw [Token.takesParameters, Bool.and_eq_true, beq_iff_eq] at hword
      exact hword.1
    have htokens := exists_tokens (s := s) (by rw [hname]; decide)
    have hinside := exists_tokens (s := s.behind) (by rw [hparen]; decide)
    -- the first token that is passed over opens the group
    have hskip : skipGroup 1 s.behind.behind.tokens =
        ((skipGroup 0 s.behind.tokens).1, true) := by
      rw [← hfound, hinside]
      simp only [skipGroup, hparen]
    obtain ⟨inside, heq, hends⟩ := endsGroup_of_skipGroup hskip
    rw [htokens, hinside, heq] at hlexed ⊢
    exact .parameters hword hparen hends (hnested hfinal (hlexed.tail.tail.behind))
  · refine of_missed ?_ ?_
    · rw [hstate, skipParameters, if_neg hfound]
      exact List.cons_ne_nil _ _
    · rw [hstate, skipParameters, if_neg hfound]
      exact hcalls

private theorem parameters {α : Type} {f : Unit → Parser α} (hword : s.next.takesParameters = true)
    (hparen : s.behind.next.kind = .leftParen)
    (hf : ∀ s, Carries (f ()) s ⟨false, closers, n⟩ b) :
    Carries (Parser.advance >>= fun _ => skipParameters >>= f) s ⟨true, closers, n⟩ b :=
  fun final hsettles => skipped hword hparen final (hf _ final hsettles)

/-- By induction on the levels of nesting that are left: a type stands in the parentheses of another one,
or behind the parameters of a function. -/
theorem itemType (levels : Nat) :
    Carries (itemType levels) s ⟨true, closers, n⟩ ⟨false, closers, n⟩ := by
  have hclose {closers : List TokenKind} {n m : Nat} (hle : n ≤ m) (type : ItemType)
      (s : ParserState) :
      let rest : Parser ItemType := do
        let _ ← Parser.expect .rightParen "')'"
        return type
      Carries rest s ⟨false, .rightParen :: closers, m⟩ ⟨false, closers, n⟩ :=
    (expect _ (.closes rfl)).bind fun _ _ => pure hle _
  have hword {s : ParserState} {type : ItemType} (hname : ¬ (s.next.kind != .name) = true)
      (htype : parameterizedTypes.lookup s.next.text = some type) :
      s.next.takesParameters = true := by
    rw [bne_iff_ne, not_not] at hname
    rw [Token.takesParameters, hname, htype]
    rfl
  induction levels using Nat.strongRecOn generalizing s closers n with
  | ind levels ih =>
    unfold Parser.itemType
    refine eat .opensType (fun s => ?_) (current ?_)
    · split
      · exact error_bind _ (fun s _ => hclose (Nat.le_refl _) _ s) (Nat.le_add_right n 3)
      · next outer =>
        refine (nested (ih outer (Nat.lt_succ_self _))).bind fun _ s => ?_
        exact hclose (Nat.le_add_right n 2) _ s
    refine ite (fun _ => error_pure _ _) fun hname => ?_
    refine isAtKindTest (fun hname hparen => ?_) (following ?_)
    · exact (kindTest _ hname hparen).bind fun _ _ => pure (Nat.le_refl _) _
    split
    · next type _ htype hparen =>
      refine parameters (hword hname htype) hparen fun s => ?_
      refine ite (fun _ => isAtWord (fun has => ?_) ?_) fun _ => pure (Nat.le_refl _) _
      · refine (advance_word has (by decide)).bind fun _ s => ?_
        split
        · exact (error_pure _ _).mono (Nat.le_add_right n 3)
        · next outer =>
          refine (nested (sequenceTypeOf (ih outer (Nat.lt_succ_self _)))).bind fun _ s => ?_
          exact pure (Nat.le_add_right n 2) _
      · exact pure (Nat.le_refl _) _
    · exact atomicType.bind fun _ _ => pure (Nat.le_refl _) _

private theorem sequenceType (levels : Nat) :
    Carries (sequenceType levels) s ⟨true, closers, n⟩ ⟨false, closers, n⟩ :=
  sequenceTypeOf (itemType levels)

/-! ### Expressions -/

section

variable {operand : OperandParser} (h : ∀ least s closers n,
  Carries (operand least) s ⟨false, closers, n + 1⟩ ⟨false, closers, n⟩)

private theorem typeBehindAs (levels : Nat) :
    Carries (typeBehindAs levels) s ⟨false, closers, n⟩ ⟨false, closers, n⟩ := by
  refine isAtWord (fun has => ?_) (pure (Nat.le_refl _) _)
  refine (advance_word has (by decide)).bind fun _ s => ?_
  exact (sequenceType levels).bind fun _ _ => pure (Nat.le_add_right n 3) _

private theorem parameter (levels : Nat) :
    Carries (parameter levels) s ⟨false, closers, n⟩ ⟨false, closers, n⟩ := by
  refine (expect _ (.plain rfl)).bind fun _ s => (qualifiedName _).bind fun _ s => ?_
  exact (typeBehindAs levels).bind fun _ _ => pure (Nat.le_refl _) _

private theorem integerLiteral (t : Token) :
    Carries (integerLiteral t) s ⟨false, closers, n⟩ ⟨false, closers, n⟩ := by
  unfold Parser.integerLiteral
  split
  · exact pure (Nat.le_refl _) _
  · exact pure (Nat.le_refl _) _
  · exact errorAt_pure _ _ _

private theorem decimalLiteral (t : Token) :
    Carries (decimalLiteral t) s ⟨false, closers, n⟩ ⟨false, closers, n⟩ := by
  unfold Parser.decimalLiteral
  split
  · exact pure (Nat.le_refl _) _
  · exact errorAt_pure _ _ _

private theorem doubleLiteral (t : Token) :
    Carries (doubleLiteral t) s ⟨false, closers, n⟩ ⟨false, closers, n⟩ := by
  unfold Parser.doubleLiteral
  split
  · exact pure (Nat.le_refl _) _
  · exact errorAt_pure _ _ _

/-- What stands behind `#` is a number, or missed. -/
theorem arity : Carries arity s ⟨false, closers, n⟩ ⟨false, closers, n⟩ := by
  by_cases hkind : s.next.kind = .integer
  · refine advance_bind (advance hkind (.plain rfl)) (mono ?_ (Nat.le_add_right n 3))
    split
    · exact ite (fun _ => pure (Nat.le_refl _) _) fun _ => errorAt_pure _ _ _
    · exact errorAt_pure _ _ _
  · refine advance_error (t := s.next) (e := "arity") (x := 0) ?_ (Nat.le_refl n)
    split
    · exact if_neg fun h => hkind h.1
    · rfl

private theorem typeOperator (levels : Nat) (word : String) (left : Expr) :
    Carries (typeOperator levels word left) s ⟨false, closers, n⟩ ⟨false, closers, n⟩ := by
  unfold Parser.typeOperator
  split
  · exact (expectTypeWord (by decide)).bind fun _ _ => (sequenceType levels).bind fun _ _ =>
      pure (Nat.le_refl _) _
  · exact (expectTypeWord (by decide)).bind fun _ _ => (sequenceType levels).bind fun _ _ =>
      pure (Nat.le_refl _) _
  · exact (expectWord _).bind fun _ _ => singleType.bind fun _ _ => pure (Nat.le_refl _) _
  · exact (expectWord _).bind fun _ _ => singleType.bind fun _ _ => pure (Nat.le_refl _) _
  · exact pure (Nat.le_refl _) _

include h

/-- An operand behind a token. -/
theorem operandOf {f : Expr → Expr} (least : Precedence) :
    Carries (operand least >>= fun e => Pure.pure (f e)) s
      ⟨false, closers, n + 3⟩ ⟨false, closers, n⟩ :=
  (h _ _ _ (n + 2)).bind fun _ _ => pure (Nat.le_add_right n 2) _

private theorem commaExpr :
    Carries (commaExpr operand) s ⟨false, closers, n + 1⟩ ⟨false, closers, n⟩ := by
  refine (h _ _ _ _).bind fun first s => isAt (fun _ => ?_) (pure (Nat.le_refl _) _)
  refine (many (.plain rfl) (fun s => ?_) s).bind fun _ _ => pure (Nat.le_refl _) _
  exact (h _ _ _ _).mono (Nat.add_le_add_left (by decide) n)

private theorem predicates : Carries (predicates operand) s ⟨false, closers, n⟩ ⟨false, closers, n⟩ := by
  refine many (.opens rfl) (fun s => ?_) s
  refine (commaExpr h).bind fun _ s => (expect _ (.closes rfl)).bind fun _ s => ?_
  exact pure (Nat.le_add_right n 2) _

private theorem group (hparen : s.next.kind = .leftParen) :
    Carries (group operand) s ⟨false, closers, n⟩ ⟨false, closers, n⟩ := by
  have hclose (e : Expr) (s : ParserState) :
      let rest : Parser Expr := do
        let _ ← Parser.expect .rightParen "')'"
        return e
      Carries rest s ⟨false, .rightParen :: closers, n + 2⟩ ⟨false, closers, n⟩ :=
    (expect _ (.closes rfl)).bind fun _ _ => pure (Nat.le_add_right n 2) _
  refine isAtList (fun list => advance_bind (advance hparen (.opens rfl)) ?_)
  refine eat (.closes rfl) (fun _ => pure (Nat.le_add_right n 6) _) ?_
  refine ite (fun _ => ?_) fun _ => (h _ _ _ _).bind hclose
  exact (commaList (by decide) (fun s n => h _ s _ n)).map.bind hclose

private theorem argument : Carries (argument operand) s ⟨false, closers, n + 1⟩ ⟨false, closers, n⟩ := by
  refine following (isAt_bind (ite (fun hnext => ?_) fun _ => ?_))
  · rw [Bool.and_eq_true, beq_iff_eq] at hnext
    exact advance_plain hnext.1 rfl fun _ _ => pure (Nat.le_add_right n 4) _
  · exact (h _ _ _ _).bind fun _ _ => pure (Nat.le_refl _) _

private theorem arguments :
    Carries (arguments operand) s ⟨false, .rightParen :: closers, n + 1⟩ ⟨false, closers, n⟩ := by
  refine eat (.closes rfl) (fun _ => pure (Nat.le_add_right n 4) _) ?_
  refine (commaList (by decide) (fun s n => argument h)).bind fun _ s => ?_
  exact (expect _ (.closes rfl)).bind fun _ _ => pure (Nat.le_refl _) _

private theorem lookupKey : Carries (lookupKey operand) s ⟨false, closers, n⟩ ⟨false, closers, n⟩ := by
  refine current ?_
  split
  · next hkind => exact advance_plain hkind rfl fun _ _ => pure (Nat.le_add_right n 3) _
  · next hkind =>
    refine advance_plain hkind rfl fun _ s => mono ?_ (Nat.le_add_right n 3)
    split
    · exact pure (Nat.le_refl _) _
    · exact errorAt_pure _ _ _
  · next hkind => exact (group h hkind).bind fun _ _ => pure (Nat.le_refl _) _
  · next hkind => exact advance_plain hkind rfl fun _ _ => pure (Nat.le_add_right n 3) _
  · exact error_pure _ _

private theorem step (levels : Nat) (axis : Axis) :
    Carries (step operand levels axis) s ⟨false, closers, n⟩ ⟨false, closers, n⟩ :=
  (nodeTest levels).bind fun _ _ => (predicates h).bind fun _ _ => pure (Nat.le_refl _) _

/-- The word in front pays for the first value and for what is behind the bindings, and each comma for
another value. -/
theorem bindings {word : Parser Unit}
    (hword : ∀ s n, Carries word s ⟨false, closers, n⟩ ⟨false, closers, n⟩) (last : String)
    (hname : s.next.kind = .name) :
    Carries (bindings operand word last) s ⟨false, closers, n⟩ ⟨false, closers, n⟩ := by
  have hbinding (s : ParserState) (n : Nat) :
      Carries (binding operand word) s ⟨false, closers, n + 1⟩ ⟨false, closers, n⟩ := by
    refine (expect _ (.plain rfl)).bind fun _ s => (qualifiedName _).bind fun name s => ?_
    exact (hword s _).bind fun _ s => (h _ _ _ _).bind fun _ _ => pure (Nat.le_refl _) _
  refine advance_bind (advance hname (.plain rfl)) ?_
  refine (commaList (by decide) hbinding).bind fun _ s => (expectWord _).bind fun _ s => ?_
  exact (h _ _ _ _).bind fun _ _ => pure (Nat.le_add_right n 1) _

/-- The word pays for the three expressions. -/
theorem choice (hname : s.next.kind = .name) :
    Carries (choice operand) s ⟨false, closers, n⟩ ⟨false, closers, n⟩ := by
  refine advance_bind (advance hname (.plain rfl)) ((expect _ (.opens rfl)).bind fun _ s => ?_)
  refine (commaExpr h).bind fun _ s => (expect _ (.closes rfl)).bind fun _ s => ?_
  refine (expectWord _).bind fun _ s => (h _ _ _ _).bind fun _ s => ?_
  refine (expectWord _).bind fun _ s => (h _ _ _ _).bind fun _ s => ?_
  exact pure (Nat.le_refl _) _

private theorem block :
    Carries (block operand) s ⟨false, .rightBrace :: closers, n + 1⟩ ⟨false, closers, n⟩ := by
  have hclose {m : Nat} (hle : n ≤ m) (e : Expr) (s : ParserState) :
      let rest : Parser Expr := do
        let _ ← Parser.expect .rightBrace "'\x7d'"
        return e
      Carries rest s ⟨false, .rightBrace :: closers, m⟩ ⟨false, closers, n⟩ :=
    (expect _ (.closes rfl)).bind fun _ _ => pure hle _
  refine isAt (fun _ => ?_) ((commaExpr h).bind (hclose (Nat.le_refl n)))
  exact hclose (Nat.le_add_right n 1) _ s

private theorem inlineFunction (levels : Nat) (hname : s.next.kind = .name)
    (hparen : s.behind.next.kind = .leftParen) :
    Carries (inlineFunction operand levels) s ⟨false, closers, n⟩ ⟨false, closers, n⟩ := by
  have hrest {m : Nat} (hle : n + 1 ≤ m) (params : List Param) (s : ParserState) :
      let rest : Parser Expr := do
        let result ← Parser.typeBehindAs levels
        let _ ← Parser.expect .leftBrace "'\x7b'"
        return Expr.inlineFunction params result (← Parser.block operand)
      Carries rest s ⟨false, closers, m⟩ ⟨false, closers, n⟩ := by
    refine mono ?_ hle
    refine (typeBehindAs levels).bind fun _ s => (expect _ (.opens rfl)).bind fun _ s => ?_
    exact (block h).bind fun _ _ => pure (Nat.le_refl _) _
  refine advance_opening hname hparen rfl fun _ _ s => ?_
  refine eat (.closes rfl) (fun s => (pure (Nat.le_refl _) _).bind (hrest (by omega))) ?_
  refine (commaList (c := 0) (by decide) fun s n => parameter levels).bind fun _ s => ?_
  refine (expect _ (.closes rfl)).bind fun _ s => ?_
  exact (pure (Nat.le_refl _) _).bind (hrest (by omega))

private theorem entry : Carries (entry operand) s ⟨false, closers, n + 2⟩ ⟨false, closers, n⟩ := by
  refine (h _ _ _ _).bind fun _ s => (expect _ (.plain rfl)).bind fun _ s => ?_
  exact (h _ _ _ _).bind fun _ _ => pure (Nat.le_refl _) _

private theorem mapConstructor (hname : s.next.kind = .name) (hbrace : s.behind.next.kind = .leftBrace) :
    Carries (mapConstructor operand) s ⟨false, closers, n⟩ ⟨false, closers, n⟩ := by
  refine advance_opening hname hbrace rfl fun _ _ s => ?_
  refine eat (.closes rfl) (fun _ => pure (Nat.le_add_right n 9) _) ?_
  refine (commaList (c := 2) (by decide) fun s n => entry h).bind fun _ s => ?_
  exact (expect _ (.closes rfl)).bind fun _ _ => pure (Nat.le_add_right n 4) _

private theorem squareArray (hbracket : s.next.kind = .leftBracket) :
    Carries (squareArray operand) s ⟨false, closers, n⟩ ⟨false, closers, n⟩ := by
  refine advance_bind (advance hbracket (.opens rfl)) ?_
  refine eat (.closes rfl) (fun _ => pure (Nat.le_add_right n 6) _) ?_
  refine (commaList (by decide) fun s n => h _ s _ n).bind fun _ s => ?_
  exact (expect _ (.closes rfl)).bind fun _ _ => pure (Nat.le_add_right n 2) _

private theorem curlyArray (hname : s.next.kind = .name) (hbrace : s.behind.next.kind = .leftBrace) :
    Carries (curlyArray operand) s ⟨false, closers, n⟩ ⟨false, closers, n⟩ := by
  refine advance_opening hname hbrace rfl fun _ _ s => ?_
  exact (block h).bind fun _ _ => pure (Nat.le_add_right n 5) _

private theorem axisStep (levels : Nat) (hname : s.next.kind = .name)
    (hcolons : s.behind.next.kind = .colonColon) :
    Carries (axisStep operand levels) s ⟨false, closers, n⟩ ⟨false, closers, n⟩ := by
  refine advance_bind (advance hname (.plain rfl)) (advance_bind (advance hcolons (.plain rfl)) ?_)
  refine mono ?_ (Nat.le_add_right n 6)
  split
  · exact step h levels _
  · exact (errorAt _ _ (Nat.le_refl _)).bind fun _ _ => step h levels _

private theorem namedOperand (hname : s.next.kind = .name) :
    Carries (namedOperand operand) s ⟨false, closers, n⟩ ⟨false, closers, n⟩ := by
  refine current ((takeName (Or.inl hname)).bind fun text s => ?_)
  refine eat (.opens rfl) (fun s => ?_) (eat (.plain rfl) (fun s => ?_) ?_)
  · refine (nameOf _ _).bind fun _ s => (arguments h).bind fun _ _ => ?_
    exact pure (Nat.le_add_right n 5) _
  · exact (nameOf _ _).bind fun _ s => arity.bind fun _ _ => pure (Nat.le_add_right n 6) _
  · refine (nameTestOf _ _).bind fun _ s => (predicates h).bind fun _ _ => ?_
    exact pure (Nat.le_add_right n 3) _

private theorem wordOperand (levels : Nat) (hname : s.next.kind = .name) :
    Carries (wordOperand operand levels) s ⟨false, closers, n⟩ ⟨false, closers, n⟩ := by
  have hassign (s : ParserState) (n : Nat) :
      let word : Parser Unit := do let _ ← Parser.expect .assign "':='"
      Carries word s ⟨false, closers, n⟩ ⟨false, closers, n⟩ :=
    (expect _ (.plain rfl)).bind fun _ _ => pure (Nat.le_refl _) _
  have hbindings {f : List Binding × Expr → Expr} {word : Parser Unit} (last : String)
      (hword : ∀ s n, Carries word s ⟨false, closers, n⟩ ⟨false, closers, n⟩) :
      Carries (Parser.bindings operand word last >>= fun found => Pure.pure (f found)) s
        ⟨false, closers, n⟩ ⟨false, closers, n⟩ :=
    (bindings h hword last hname).bind fun _ _ => pure (Nat.le_refl _) _
  refine current (following ?_)
  dsimp only
  split
  · exact hbindings _ fun s n => expectWord _
  · exact hbindings _ hassign
  · exact hbindings _ fun s n => expectWord _
  · exact hbindings _ fun s n => expectWord _
  · exact choice h hname
  · next hparen => exact inlineFunction h levels hname hparen
  · next hbrace => exact mapConstructor h hname hbrace
  · next hbrace => exact curlyArray h hname hbrace
  · next hcolons => exact axisStep h levels hname hcolons
  · exact isAtKindTest (fun _ _ => step h levels _) (namedOperand h hname)

/-- Where no operand starts, one is missed, and then any token may be taken. -/
theorem primary (levels : Nat) :
    Carries (primary operand levels) s ⟨false, closers, n⟩ ⟨false, closers, n⟩ := by
  have hle : n ≤ n + 3 := Nat.le_add_right n 3
  refine current ?_
  split
  · next hkind => exact advance_plain hkind rfl fun t _ => (integerLiteral t).mono hle
  · next hkind => exact advance_plain hkind rfl fun t _ => (decimalLiteral t).mono hle
  · next hkind => exact advance_plain hkind rfl fun t _ => (doubleLiteral t).mono hle
  · next hkind => exact advance_plain hkind rfl fun _ _ => pure hle _
  · next hkind =>
    exact advance_plain hkind rfl fun _ _ => (qualifiedName _).bind fun _ _ => pure hle _
  · next hkind => exact group h hkind
  · next hkind => exact squareArray h hkind
  · next hkind => exact advance_plain hkind rfl fun _ _ => pure hle _
  · next hkind => exact advance_plain hkind rfl fun _ _ => (predicates h).bind fun _ _ => pure hle _
  · next hkind => exact advance_plain hkind rfl fun _ _ => (step h levels _).mono hle
  · next hkind =>
    refine advance_plain hkind rfl fun _ s => current (ite (fun _ => ?_) fun _ => pure hle _)
    exact operandOf h _
  · next hkind => exact advance_plain hkind rfl fun _ _ => operandOf h _
  · next hkind => exact advance_plain hkind rfl fun _ _ => operandOf h _
  · next hkind => exact advance_plain hkind rfl fun _ _ => operandOf h _
  · next hkind => exact advance_plain hkind rfl fun _ _ => (lookupKey h).bind fun _ _ => pure hle _
  · exact step h levels _
  · next hkind => exact wordOperand h levels hkind
  · have hsame : n ≤ n := Nat.le_refl n
    refine error_bind (m := ⟨false, closers, n⟩) _ (fun s hs => ?_) hsame
    refine ite (fun _ => ?_) fun _ => pure hsame _
    exact (advance_missed (b := ⟨false, closers, n⟩) hs hsame).bind fun _ _ => pure hsame _

private theorem arrowCall (base : Expr) :
    Carries (arrowCall operand base) s ⟨false, closers, n⟩ ⟨false, closers, n⟩ := by
  have hargs {target : List Argument → Expr} {m : Nat} (hle : n ≤ m) (s : ParserState) :
      let args : Parser (List Argument) := do
        if ← Parser.expect .leftParen "'('" then Parser.arguments operand else return []
      Carries (args >>= fun found => Pure.pure (target found)) s
        ⟨false, closers, m⟩ ⟨false, closers, n⟩ := by
    refine bind (m := ⟨false, closers, n⟩) (expect_bind _ (.opens rfl) (fun s => ?_) fun s hs => ?_)
      fun _ _ => pure (Nat.le_refl n) _
    · exact (arguments h).mono (by omega)
    · exact pure hle _
  refine current ?_
  dsimp only
  split
  · exact (qualifiedName _).bind fun _ s => hargs (Nat.le_refl n) s
  · next hkind =>
    refine advance_plain hkind rfl fun _ s => (qualifiedName _).bind fun _ s => ?_
    exact hargs (Nat.le_add_right n 3) s
  · next hkind => exact (group h hkind).bind fun _ s => hargs (Nat.le_refl n) s
  · exact error_pure _ _

/-- Behind an operator. Only two of them open a bracket. -/
theorem operatorRest (levels : Nat) (left : Expr) (precedence : Precedence)
    (hprecedence : s.next.infixPrecedence? = some precedence) :
    Carries (Parser.advance >>= fun t => operatorRest operand levels t left precedence) s
      ⟨false, closers, n⟩ ⟨false, closers, n⟩ := by
  have hnone (hkind : s.next.kind = .leftBracket ∨ s.next.kind = .leftParen) :
      binaryOperator? s.next = none := by
    rcases hkind with hkind | hkind <;> rw [binaryOperator?, hkind] <;> rfl
  rcases infixPrecedence?_kind hprecedence with hplain | hkind | hkind
  · refine advance_bind (advance rfl (.plain hplain)) ?_
    unfold Parser.operatorRest
    split
    · exact operandOf h _
    · split
      · exact operandOf h _
      · exact operandOf h _
      · exact (arrowCall h left).mono (Nat.le_add_right n 3)
      · next hkind =>
        rw [hkind] at hplain
        contradiction
      · next hkind =>
        rw [hkind] at hplain
        contradiction
      · exact (lookupKey h).bind fun _ _ => pure (Nat.le_add_right n 3) _
      · refine (typeOperator _ _ _).bind fun found s => mono ?_ (Nat.le_add_right n 3)
        split
        · exact pure (Nat.le_refl _) _
        · exact errorAt_pure _ _ _
  · refine advance_bind (advance hkind (.opens rfl)) ?_
    rw [Parser.operatorRest, hnone (Or.inl hkind), hkind]
    refine (commaExpr h).bind fun _ s => (expect _ (.closes rfl)).bind fun _ _ => ?_
    exact pure (Nat.le_add_right n 2) _
  · refine advance_bind (advance hkind (.opens rfl)) ?_
    rw [Parser.operatorRest, hnone (Or.inr hkind), hkind]
    exact (arguments h).bind fun _ _ => pure (Nat.le_add_right n 2) _

end

/-- By induction on the levels of nesting that are left. -/
theorem operandAt (levels : Nat) (least : Precedence) (s : ParserState) (closers : List TokenKind)
    (n : Nat) :
    Carries (operandAt levels least) s ⟨false, closers, n + 1⟩ ⟨false, closers, n⟩ := by
  induction levels generalizing least s closers n with
  | zero => exact (error_pure _ _).mono (Nat.le_add_right n 1)
  | succ levels ih =>
    refine nested ((primary ih levels).bind fun left s => ?_)
    exact climb (fun left precedence s => operatorRest ih levels left precedence) least left s

end Carries

/-! ### Whole expressions -/

/-- A run that ends with something missed owes no brackets. -/
theorem settles_error (expected : String) (s : ParserState) :
    Settles (failed (error expected) s).state ⟨inType, closers, n⟩ s := by
  have hmissed := errors_error_ne_nil expected s
  refine Carries.error (b := ⟨inType, closers, n⟩) expected (Nat.le_refl n) _ ?_
  exact ⟨by omega, fun h => absurd h hmissed, fun h => absurd h hmissed⟩

/-- No token of a text stands for its end. -/
theorem tokens_eq_nil_of_eof (hlexed : Lexed s.tokens) (h : s.next.kind = .eof) : s.tokens = [] := by
  cases htokens : s.tokens with
  | nil => rfl
  | cons t ts =>
    obtain ⟨c, hc⟩ := hlexed
    rw [ParserState.next, htokens] at h
    exact absurd h (Cursor.next_of_tokens (hc.trans htokens)).2.2

/-- At the end of the tokens nothing is owed. -/
theorem settles_end (h : s.next.kind = .eof) : Settles s ⟨false, [], 0⟩ s := by
  refine ⟨by omega, id, fun _ hlexed => ?_⟩
  rw [tokens_eq_nil_of_eof hlexed h]
  exact .nil _

/-- In front of a whole expression no bracket is open, and one operand is read. -/
theorem settles_program (s : ParserState) : Settles (program s).state ⟨false, [], 1⟩ s := by
  have hend (e : Expr) (s : ParserState) :
      let rest : Parser Expr := do
        if !(← isAt .eof) then failed (error "end of input")
        return e
      Settles (rest s).state ⟨false, [], 0⟩ s := by
    change Settles ((if (!(s.next.kind == .eof)) = true then _ else _ : Parser Expr) s).state _ s
    split
    · exact settles_error _ _
    · next h =>
      rw [Bool.not_eq_true', Bool.not_eq_false, beq_iff_eq] at h
      exact settles_end h
  change Settles ((if (s.next.kind == .eof) = true then _ else _ : Parser Expr) s).state _ s
  split
  · exact settles_error _ _
  · exact Carries.commaExpr (Carries.operandAt maxNesting) (n := 0) _ (hend _ _)

end TreeQuery.Parser

namespace TreeQuery.Expr

/-- What is read without errors has its brackets nested, but for the parameters of types, in which
only parentheses count. Nothing else among its tokens is illegal. -/
theorem nested_of_read (text : String) (h : (read text).2 = []) :
    Nested false [] (tokenize text.toList) ∧
      ∀ t ∈ tokenize text.toList, t.kind = .illegal → t.InParameters (tokenize text.toList) := by
  have hsettles := Parser.settles_program
    { source := text.toList, tokens := tokenize text.toList, errors := [] }
  have hnested : Nested false [] (tokenize text.toList) :=
    hsettles.nested (List.reverse_eq_nil_iff.mp h) ⟨Cursor.start text.toList, rfl⟩
  exact ⟨hnested, fun t ht hkind => hnested.inParameters List.not_mem_nil ht hkind⟩

/-- In the type that an operand is an instance of, a token is illegal: it is a parameter of that type. -/
theorem nested_of_read_instance :
    (read ". instance of map(^)").2 = [] ∧
      Nested false [] (tokenize ". instance of map(^)".toList) ∧
      ∀ t ∈ tokenize ". instance of map(^)".toList, t.kind = .illegal →
        t.InParameters (tokenize ". instance of map(^)".toList) := by
  have hread : (read ". instance of map(^)").2 = [] := by decide +kernel
  exact ⟨hread, nested_of_read _ hread⟩

/-- The parameters of a type are not looked at. -/
theorem illegal_in_map_type : ¬ ∀ text : String, (read text).2 = [] →
    ∀ t ∈ tokenize text.toList, t.kind ≠ .illegal := by
  intro h
  have hread : (read ". instance of map(^)").2 = [] := by decide +kernel
  have hillegal : ∃ t ∈ tokenize ". instance of map(^)".toList, t.kind = .illegal := by
    decide +kernel
  obtain ⟨t, ht, hkind⟩ := hillegal
  exact h _ hread t ht hkind

end TreeQuery.Expr
