import TreeQuery.Proofs.Parser.Chains

/-!
# Reading operators

Canonical text puts every operator in parentheses together with its operands. Inside them the left
operand is read first, and the operator is climbed on from it.
-/

namespace TreeQuery

/-! ### Operators as tokens -/

/-- The kind of token that an operator is. -/
def BinaryOp.kind : BinaryOp → TokenKind
  | .arithmetic .add => .plus
  | .arithmetic .sub => .minus
  | .arithmetic .mul => .star
  | .comparison (.general .eq) => .eq
  | .comparison (.general .ne) => .notEq
  | .comparison (.general .lt) => .lt
  | .comparison (.general .le) => .le
  | .comparison (.general .gt) => .gt
  | .comparison (.general .ge) => .ge
  | .comparison (.node .precedes) => .precedes
  | .comparison (.node .follows) => .follows
  | .concat => .concat
  | .nodes .union => .pipe
  | .simpleMap => .bang
  | _ => .name

/-- How tightly an operator binds. -/
def BinaryOp.precedence : BinaryOp → Precedence
  | .arithmetic .add | .arithmetic .sub => .additive
  | .arithmetic _ => .multiplicative
  | .comparison _ => .comparison
  | .and => .and
  | .or => .or
  | .concat => .concat
  | .range => .range
  | .nodes _ => .setOperator
  | .simpleMap => .simpleMap

/-- Every operator binds tighter than a comma and less tight than a path. -/
theorem BinaryOp.precedence_rank (op : BinaryOp) :
    Precedence.comma.rank < op.precedence.rank ∧ op.precedence.rank < Precedence.path.rank := by
  have hall : ∀ p ∈ [Precedence.additive, .multiplicative, .comparison, .and, .or, .concat, .range,
      .setOperator, .simpleMap], Precedence.comma.rank < p.rank ∧ p.rank < Precedence.path.rank := by
    decide
  refine hall _ ?_
  cases op with
  | arithmetic op => cases op <;> simp [precedence]
  | comparison _ | and | or | concat | range | nodes _ | simpleMap => simp [precedence]

private theorem BinaryOp.startsPath_kind (op : BinaryOp) (h : ¬ op.StartsPath) :
    Parser.startsPath op.kind = false := by
  cases op with
  | arithmetic op => cases op <;> first | rfl | exact absurd trivial h
  | comparison op =>
    cases op with
    | value r => exact absurd trivial h
    | general r => cases r <;> rfl
    | node r => cases r <;> first | rfl | exact absurd trivial h
  | nodes op => cases op <;> first | rfl | exact absurd trivial h
  | and | or | range => exact absurd trivial h
  | concat | simpleMap => rfl

/-- A symbol in front of a blank is one token. -/
theorem starts_symbol (op : BinaryOp) (cs : List Char) :
    Starts (op.symbol.toList ++ ' ' :: cs) op.kind op.symbol (' ' :: cs) := by
  have hword {word : String} (h : isSimpleName word.toList = true) :
      Starts (word.toList ++ ' ' :: cs) .name word (' ' :: cs) :=
    starts_word h (breaks_cons (by decide) cs)
  cases op with
  | arithmetic op =>
    cases op with
    | add | sub | mul => exact starts_mark rfl _
    | div | idiv | mod => exact hword (by decide)
  | comparison op =>
    cases op with
    | value r => cases r <;> exact hword (by decide)
    | general r => cases r <;> exact ⟨rfl, rfl, rfl⟩
    | node r =>
      cases r with
      | is => exact hword (by decide)
      | precedes | follows => exact ⟨rfl, rfl, rfl⟩
  | nodes op =>
    cases op with
    | union => exact ⟨rfl, rfl, rfl⟩
    | intersect | except => exact hword (by decide)
  | and | or | range => exact hword (by decide)
  | concat | simpleMap => exact ⟨rfl, rfl, rfl⟩

/-- The token of an operator stands for it. -/
theorem binaryOperator?_of_token {op : BinaryOp} {t : Token} (hkind : t.kind = op.kind)
    (htext : t.text = op.symbol) :
    Parser.binaryOperator? t = some op ∧ t.infixPrecedence? = some op.precedence := by
  obtain ⟨kind, text, offset, spaced⟩ := t
  obtain rfl : kind = op.kind := hkind
  obtain rfl : text = op.symbol := htext
  cases op with
  | arithmetic op => cases op <;> exact ⟨rfl, rfl⟩
  | comparison op =>
    cases op with
    | value r | general r => cases r <;> exact ⟨rfl, rfl⟩
    | node r => cases r <;> exact ⟨rfl, rfl⟩
  | nodes op => cases op <;> exact ⟨rfl, rfl⟩
  | and | or | range | concat | simpleMap => exact ⟨rfl, rfl⟩

end TreeQuery

namespace TreeQuery.Parser

variable {e l r : Expr} {levels : Nat} {cs rest : List Char} {kind : TokenKind} {text : String}

/-! ### Forms in parentheses -/

/-- A closing parenthesis stops every operator. -/
theorem kind_rightParen (rest : List Char) :
    nextKind (')' :: rest) ∈ [.rightParen, .rightBracket, .rightBrace, .comma, .colon, .eof] := by
  rw [(starts_mark (c := ')') rfl rest).kind]
  decide

/-- A form whose text is one operand in parentheses. -/
theorem legible_of_group (inner : List Char → List Char) (h : ¬ e.IsSequence)
    (htext : ∀ rest, e.text ++ rest = '(' :: inner (')' :: rest))
    (hbegins : ∀ rest, Begins (inner (')' :: rest)))
    (hreads : ∀ levels rest, Reads (e.nesting 0 ≤ levels + 1) (single (operandAt levels))
      (inner (')' :: rest)) e.reread (')' :: rest)) : e.Legible := by
  refine legible_of_opens (Or.inl h) (fun rest _ => ?_) (opens_of_primary fun levels rest _ => ?_)
  · rw [htext]
    exact begins_parenthesis (hbegins rest).head
  · rw [htext, Expr.levels_of_not_sequence h]
    exact reads_primary_group (hbegins rest).head
      (reads_group_single (hbegins rest) (Or.inl (Expr.not_isSequence_reread h)) (hreads levels rest))

/-- A form in parentheses that is read without climbing. -/
theorem legible_of_primary (inner : List Char → List Char) (h : ¬ e.IsSequence)
    (htext : ∀ rest, e.text ++ rest = '(' :: inner (')' :: rest))
    (hbegins : ∀ rest, Begins (inner (')' :: rest))) (htwo : 2 ≤ e.nesting 0)
    (hprimary : ∀ levels rest, Reads (e.nesting 0 ≤ levels + 2) (primary (operandAt levels) levels)
      (inner (')' :: rest)) e.reread (')' :: rest)) : e.Legible := by
  refine legible_of_group inner h htext hbegins fun levels rest => ?_
  cases levels with
  | zero => exact reads_operandAt_zero (by omega)
  | succ levels =>
    exact (reads_operandAt (hprimary levels rest)
      (reads_climb_stop (stops_of_kind (kind_rightParen rest)))).congr (and_iff_left trivial)

/-- What stands last in parentheses. -/
theorem reads_last {least : Precedence} (he : e.Legible) (hlt : least.rank < Precedence.path.rank)
    (levels : Nat) (rest : List Char) :
    Reads (e.levels ≤ levels) (operandAt levels least) (e.text ++ ')' :: rest) e.reread
      (')' :: rest) :=
  reads_opens he.opens (admits_of_kind e hlt (nameEnds_rightParen rest) (kind_rightParen rest))
    (stops_of_kind (kind_rightParen rest)) levels

/-! ### Left operands -/

/-- An operand in front of an operator that is no link. -/
theorem admits_infix (hstarts : Starts cs kind text rest)
    (hprecedence : ∀ t : Token, t.kind = kind → t.text = text →
      ∀ precedence, t.infixPrecedence? = some precedence → precedence.rank < Precedence.path.rank)
    (hroot : e = .root → startsPath kind = false) : e.Admits .comma (' ' :: cs) := by
  refine ⟨nameEnds_of_kind (by simp) cs, by decide, fun _ => ⟨by decide, ?_⟩, fun heq => ⟨?_, by simp⟩⟩
  · intro t hkind htext precedence hp
    rw [nextKind_blank, hstarts.kind] at hkind
    rw [nextText_blank, hstarts.text] at htext
    exact Nat.le_of_lt (hprecedence t hkind htext precedence hp)
  · rw [nextKind_blank, hstarts.kind]
    exact hroot heq

/-- A form whose text is an operator behind its left operand, in parentheses. The operand needs one
level less than the form, what is behind it needs `right` levels. -/
theorem legible_infix (right : Nat) (tail : List Char → List Char) (h : ¬ e.IsSequence)
    (htext : ∀ rest, e.text ++ rest = '(' :: (l.text ++ ' ' :: tail (')' :: rest)))
    (hl : l.Legible) (hadmits : ∀ rest, l.Admits .comma (' ' :: tail (')' :: rest)))
    (hnesting : e.nesting 0 = max (1 + l.levels) right)
    (hclimb : ∀ levels rest, Reads (right ≤ levels + 2) (climb (operandAt levels) levels .comma l.reread)
      (tail (')' :: rest)) e.reread (')' :: rest)) : e.Legible := by
  refine legible_of_group (fun cs => l.text ++ ' ' :: tail cs) h htext
    (fun rest => hl.begins _ (nameEnds_of_kind (by simp) _)) fun levels rest => ?_
  cases levels with
  | zero =>
    have hpos := l.one_le_levels
    exact reads_operandAt_zero (by omega)
  | succ levels =>
    refine (hl.opens levels .comma _ (hadmits rest) _ _ _ (hclimb levels rest).blank).congr ?_
    omega

/-! ### Binary operators -/

/-- Operators with both their sides are read back. -/
theorem legible_binary {op : BinaryOp} (hreadable : (Expr.binary op l r).Readable) (hl : l.Legible)
    (hr : r.Legible) : (Expr.binary op l r).Legible := by
  refine legible_infix (2 + r.levels) (fun cs => op.symbol.toList ++ ' ' :: (r.text ++ cs)) id
    (fun rest => Expr.text_binary rest op l r) hl (fun rest => ?_) ?_ (fun levels rest => ?_)
  · refine admits_infix (starts_symbol op _) (fun t hkind htext precedence hp => ?_) fun hroot =>
      op.startsPath_kind (hreadable hroot)
    rw [(binaryOperator?_of_token hkind htext).2] at hp
    rw [← Option.some.inj hp]
    exact op.precedence_rank.2
  · simp only [Expr.nesting, Expr.levels]
    omega
  · have hright := (reads_last hr op.precedence_rank.2 levels rest).blank
    have hfits : r.levels ≤ levels ∧ True ↔ 2 + r.levels ≤ levels + 2 := by
      rw [and_iff_left trivial]
      omega
    exact (reads_climb_binary (persists_operandAt levels) (starts_symbol op _)
      (fun _ => binaryOperator?_of_token) op.precedence_rank.1 hright
      (reads_climb_stop (stops_of_kind (kind_rightParen rest)))).congr hfits

/-- A sign is one token. -/
theorem starts_sign (sign : Sign) (cs : List Char) :
    ∃ kind, (kind = .minus ∧ sign = .minus ∨ kind = .plus ∧ sign = .plus) ∧
      Starts (sign.symbol.toList ++ cs) kind sign.symbol cs := by
  cases sign with
  | minus => exact ⟨.minus, Or.inl ⟨rfl, rfl⟩, starts_mark rfl cs⟩
  | plus => exact ⟨.plus, Or.inr ⟨rfl, rfl⟩, starts_mark rfl cs⟩

/-- A sign begins an operand. -/
theorem begins_sign (sign : Sign) (cs : List Char) : Begins (sign.symbol.toList ++ cs) := by
  obtain ⟨kind, hkinds, hstarts⟩ := starts_sign sign cs
  refine begins_of_starts hstarts ?_ ?_
  · cases sign <;> simp [Sign.symbol]
  · rcases hkinds with ⟨rfl, -⟩ | ⟨rfl, -⟩ <;> decide

/-- A sign and the operand behind it. -/
theorem reads_signed {fits : Prop} (sign : Sign)
    (hoperand : Reads fits (operandAt levels .unary) cs e rest) :
    Reads fits (primary (operandAt levels) levels) (sign.symbol.toList ++ cs) (.signed sign e) rest := by
  obtain ⟨kind, hkinds, hstarts⟩ := starts_sign sign cs
  refine reads_current fun t hkind _ => ?_
  rw [hkind, hstarts.kind]
  rcases hkinds with ⟨rfl, rfl⟩ | ⟨rfl, rfl⟩
  all_goals
    refine reads_advance fun _ _ _ => ?_
    rw [hstarts.rest]
    exact hoperand.andThen (fun _ => persists_pure _) reads_pure

/-- A sign in front of an operand. -/
theorem legible_signed {sign : Sign} (he : e.Legible) : (Expr.signed sign e).Legible := by
  have hnesting : (Expr.signed sign e).nesting 0 = 2 + e.levels := by
    simp only [Expr.nesting, Expr.levels]
    omega
  refine legible_of_primary (fun cs => sign.symbol.toList ++ (e.text ++ cs)) id
    (fun rest => Expr.text_signed rest sign e) (fun rest => begins_sign sign _) (by omega)
    fun levels rest => ?_
  have hoperand := reads_last he (show Precedence.unary.rank < _ by decide) levels rest
  exact (reads_signed sign hoperand).congr (show e.levels ≤ levels ↔ _ by omega)

/-! ### Operators on types -/

/-- A closing parenthesis ends a type. -/
theorem typeEnds_rightParen (rest : List Char) : TypeEnds (')' :: rest) := by
  have hclose := (starts_mark (c := ')') rfl rest).kind
  exact ⟨⟨nameEnds_rightParen rest, hclose.trans_ne (by decide)⟩, hclose.trans_ne (by decide),
    hclose.trans_ne (by decide), hclose.trans_ne (by decide)⟩

/-- An operator of two words with a type behind it. -/
theorem legible_typeOperator (word word' : String) {type : List Char} (h : ¬ e.IsSequence)
    (htext : ∀ rest, e.text ++ rest = '(' :: (l.text ++ ' ' ::
      ((word ++ " " ++ word').toList ++ ' ' :: (type ++ ')' :: rest))))
    (hl : l.Legible) (hroot : l ≠ .root) (hword : isSimpleName word.toList = true)
    (hprecedence : infixWords.lookup word = some .typeOperator)
    (hnone : wordOperators.lookup word = none) (hnesting : e.nesting 0 = 1 + l.levels)
    (hread : ∀ levels rest, Reads True (typeOperator levels word l.reread)
      (word'.toList ++ ' ' :: (type ++ ')' :: rest)) (some e.reread) (')' :: rest)) : e.Legible := by
  have hsplit (cs : List Char) : (word ++ " " ++ word').toList ++ cs =
      word.toList ++ ' ' :: (word'.toList ++ cs) := by
    simp
  have hstarts (cs : List Char) : Starts (word.toList ++ ' ' :: cs) .name word (' ' :: cs) :=
    starts_word hword (breaks_cons (by decide) cs)
  have hloose : ∀ t : Token, t.kind = .name → t.text = word →
      t.infixPrecedence? = some .typeOperator := by
    intro t hkind htext
    rw [Token.infixPrecedence?, hkind, htext, ← hprecedence]
  refine legible_infix 0 (fun cs => (word ++ " " ++ word').toList ++ ' ' :: (type ++ cs)) h htext hl
    (fun rest => ?_) ?_ fun levels rest => ?_
  · rw [hsplit]
    refine admits_infix (hstarts _) (fun t hkind htext precedence hp => ?_) (absurd · hroot)
    rw [hloose t hkind htext] at hp
    rw [← Option.some.inj hp]
    decide
  · rw [hnesting]
    omega
  · rw [hsplit]
    refine (reads_climb (persists_operandAt levels) (hstarts _) hloose (by decide)
      (fun t hkind htext => ?_) (reads_climb_stop (stops_of_kind (kind_rightParen rest)))).congr
        (show True ∧ True ↔ _ by simp)
    rw [operatorRest, binaryOperator?, if_pos hkind, htext, hnone, hkind]
    exact (hread levels rest).blank.then reads_pure

private theorem nesting_instanceOf (l : Expr) (type : SequenceType) :
    (Expr.instanceOf l type).nesting 0 = 1 + l.levels := by
  simp only [Expr.nesting, Expr.levels]
  omega

private theorem nesting_castAs (l : Expr) (type : SingleType) :
    (Expr.castAs l type).nesting 0 = 1 + l.levels := by
  simp only [Expr.nesting, Expr.levels]
  omega

/-- Tests of types are read back. -/
theorem legible_instanceOf {type : SequenceType} (hformed : type.WellFormed)
    (hreadable : (Expr.instanceOf l type).Readable) (hl : l.Legible) :
    (Expr.instanceOf l type).Legible := by
  refine legible_typeOperator "instance" "of" id (fun rest => Expr.toList_infixText ..) hl
    hreadable.1 (by decide) (by decide) (by decide) (nesting_instanceOf l type) fun levels rest => ?_
  refine (reads_expectWord (starts_word (by decide) (breaks_cons (by decide) _))).then ?_
  have htype := reads_sequenceType hformed hreadable.2 (typeEnds_rightParen rest) levels
  exact htype.blank.then reads_pure

/-- Types that are relied on are read back. -/
theorem legible_treatAs {type : SequenceType} (hformed : type.WellFormed)
    (hreadable : (Expr.treatAs l type).Readable) (hl : l.Legible) :
    (Expr.treatAs l type).Legible := by
  refine legible_typeOperator "treat" "as" id (fun rest => Expr.toList_infixText ..) hl
    hreadable.1 (by decide) (by decide) (by decide) (nesting_instanceOf l type) fun levels rest => ?_
  refine (reads_expectWord (starts_word (by decide) (breaks_cons (by decide) _))).then ?_
  have htype := reads_sequenceType hformed hreadable.2 (typeEnds_rightParen rest) levels
  exact htype.blank.then reads_pure

/-- Tests of casts are read back. -/
theorem legible_castableAs {type : SingleType} (hreadable : (Expr.castableAs l type).Readable)
    (hl : l.Legible) : (Expr.castableAs l type).Legible := by
  refine legible_typeOperator "castable" "as" id (fun rest => Expr.toList_infixText ..) hl
    hreadable (by decide) (by decide) (by decide) (nesting_castAs l type) fun levels rest => ?_
  refine (reads_expectWord (starts_word (by decide) (breaks_cons (by decide) _))).then ?_
  exact (reads_singleType type (typeEnds_rightParen rest)).blank.then reads_pure

/-- Casts are read back. -/
theorem legible_castAs {type : SingleType} (hreadable : (Expr.castAs l type).Readable)
    (hl : l.Legible) : (Expr.castAs l type).Legible := by
  refine legible_typeOperator "cast" "as" id (fun rest => Expr.toList_infixText ..) hl
    hreadable (by decide) (by decide) (by decide) (nesting_castAs l type) fun levels rest => ?_
  refine (reads_expectWord (starts_word (by decide) (breaks_cons (by decide) _))).then ?_
  exact (reads_singleType type (typeEnds_rightParen rest)).blank.then reads_pure

/-! ### Arrows -/

/-- The arguments that must follow the target of an arrow. -/
theorem reads_argumentsBehind {args : List Argument}
    (h : ∀ c ∈ args.flatMap Argument.children, c.Legible) (levels : Nat) (rest : List Char) :
    Reads (Argument.nestingAll args ≤ levels)
      (do if ← expect .leftParen "'('" then arguments (operandAt levels) else return [])
      ('(' :: (Argument.allText args ++ ')' :: rest)) (args.map Argument.reread) rest :=
  (reads_expect (starts_leftParen (head_allText h)) _).then (reads_arguments h levels)

/-- An arrow, with what is called behind it. -/
theorem legible_arrow (right : Nat) (call : List Char → List Char) (h : ¬ e.IsSequence)
    (htext : ∀ rest, e.text ++ rest = '(' :: (l.text ++ ' ' :: '=' :: '>' :: ' ' :: call (')' :: rest)))
    (hl : l.Legible) (hnesting : e.nesting 0 = max (1 + l.levels) (2 + right))
    (hcall : ∀ levels rest, Reads (right ≤ levels) (arrowCall (operandAt levels) l.reread)
      (call (')' :: rest)) e.reread (')' :: rest)) : e.Legible := by
  have harrow (cs : List Char) : Starts ('=' :: '>' :: ' ' :: cs) .arrow "=>" (' ' :: cs) :=
    ⟨rfl, rfl, rfl⟩
  have hloose : ∀ t : Token, t.kind = .arrow → t.text = "=>" → t.infixPrecedence? = some .arrow := by
    intro t hkind _
    rw [Token.infixPrecedence?, hkind]
  refine legible_infix (2 + right) (fun cs => '=' :: '>' :: ' ' :: call cs) h htext hl
    (fun rest => ?_) hnesting fun levels rest => ?_
  · refine admits_infix (harrow _) (fun t hkind ht precedence hp => ?_) fun _ => rfl
    rw [hloose t hkind ht] at hp
    rw [← Option.some.inj hp]
    decide
  · have hfits : right ≤ levels ∧ True ↔ 2 + right ≤ levels + 2 := by
      rw [and_iff_left trivial]
      omega
    refine (reads_climb (persists_operandAt levels) (harrow _) hloose (by decide)
      (fun t hkind _ => ?_) (reads_climb_stop (stops_of_kind (kind_rightParen rest)))).congr hfits
    have hnone : binaryOperator? t = none := by simp [binaryOperator?, symbolOperator?, hkind]
    rw [operatorRest, hnone, hkind]
    exact (hcall levels rest).blank

/-- Arrows to names are read back. -/
theorem legible_arrowNamed {name : QName} {args : List Argument} (hname : name.WellFormed)
    (hl : l.Legible) (hargs : ∀ c ∈ args.flatMap Argument.children, c.Legible) :
    (Expr.arrowNamed l name args).Legible := by
  have hreread : (Expr.arrowNamed l name args).reread =
      .arrowNamed l.reread name (args.map Argument.reread) := by
    rw [Expr.reread, Expr.rereadAt, Argument.rereadAll_eq]
    rfl
  refine legible_arrow (Argument.nestingAll args) (fun cs => name.render.toList ++
    '(' :: (Argument.allText args ++ ')' :: cs)) id (fun rest => Expr.text_arrowNamed ..) hl ?_
    fun levels rest => ?_
  · simp only [Expr.nesting, Expr.levels]
    omega
  · have hends : NameEnds ('(' :: (Argument.allText args ++ ')' :: ')' :: rest)) :=
      nameEnds_of_kind (by simp) _
    rw [hreread]
    refine reads_current fun t hkind _ => ?_
    rw [hkind, nextKind_render hname hends]
    refine (reads_qualifiedName hname hends _).then ?_
    exact (reads_argumentsBehind hargs levels _).andThen (fun _ => persists_pure _) reads_pure

private theorem target_of_ne_var {target : Expr} (h : ∀ name, target ≠ .var name) :
    target.target = (parenthesized target.render).toList ∧
      target.targetNesting (target.nesting 0) = target.nesting 0 := by
  cases target with
  | var name => exact absurd rfl (h name)
  | _ => exact ⟨rfl, rfl⟩

/-- A variable in front of arguments, or an expression in parentheses. -/
theorem reads_arrowCall_dynamic {target base : Expr} {args : List Argument} (hformed : target.Formed)
    (htarget : target.Legible) (hargs : ∀ c ∈ args.flatMap Argument.children, c.Legible)
    (levels : Nat) (rest : List Char) :
    Reads (target.targetNesting (target.nesting 0) ≤ levels ∧ Argument.nestingAll args ≤ levels)
      (arrowCall (operandAt levels) base)
      (target.target ++ '(' :: (Argument.allText args ++ ')' :: rest))
      (.arrowDynamic base target.reread (args.map Argument.reread)) rest := by
  have hbehind := (reads_argumentsBehind hargs levels rest).andThen
    (f := fun args => pure (Expr.arrowDynamic base target.reread args))
    (fun _ => persists_pure _) reads_pure
  have hends : NameEnds ('(' :: (Argument.allText args ++ ')' :: rest)) :=
    nameEnds_of_kind (by simp) _
  by_cases hvar : ∃ name, target = .var name
  · obtain ⟨name, rfl⟩ := hvar
    have hdollar := starts_mark (c := '$') rfl
      (name.render.toList ++ '(' :: (Argument.allText args ++ ')' :: rest))
    have htext : (Expr.var name).target ++ '(' :: (Argument.allText args ++ ')' :: rest) =
        '$' :: (name.render.toList ++ '(' :: (Argument.allText args ++ ')' :: rest)) := by
      change ("$" ++ name.render).toList ++ _ = _
      simp
    rw [htext]
    refine Reads.congr ?_ (and_iff_right (Nat.zero_le levels)).symm
    refine reads_current fun t hkind _ => ?_
    rw [hkind, hdollar.kind]
    refine reads_advance fun _ _ _ => ?_
    rw [hdollar.rest]
    exact (reads_qualifiedName hformed hends _).then hbehind
  · have hne : ∀ name, target ≠ .var name := fun name heq => hvar ⟨name, heq⟩
    have hopen := starts_leftParen (htarget.beginsAlone _ (nameEnds_rightParen
      ('(' :: (Argument.allText args ++ ')' :: rest)))).head
    rw [(target_of_ne_var hne).1, (target_of_ne_var hne).2, Expr.toList_parenthesized]
    refine reads_current fun t hkind _ => ?_
    rw [hkind, hopen.kind]
    refine (htarget.group levels _).bind (fun _ => ?_) hbehind
    exact ((persists_expect _ _).bind fun _ =>
      .ite (persists_arguments (persists_operandAt levels)) (persists_pure _)).bind fun _ =>
        persists_pure _

/-- Arrows to values are read back. -/
theorem legible_arrowDynamic {target : Expr} {args : List Argument}
    (hformed : target.Formed) (hl : l.Legible) (htarget : target.Legible)
    (hargs : ∀ c ∈ args.flatMap Argument.children, c.Legible) :
    (Expr.arrowDynamic l target args).Legible := by
  have hreread : (Expr.arrowDynamic l target args).reread =
      .arrowDynamic l.reread target.reread (args.map Argument.reread) := by
    rw [Expr.reread, Expr.rereadAt, Argument.rereadAll_eq]
    rfl
  refine legible_arrow (max (target.targetNesting (target.nesting 0)) (Argument.nestingAll args))
    (fun cs => target.target ++ '(' :: (Argument.allText args ++ ')' :: cs)) id
    (fun rest => Expr.text_arrowDynamic ..) hl ?_ fun levels rest => ?_
  · simp only [Expr.nesting, Expr.levels]
    omega
  · rw [hreread]
    exact (reads_arrowCall_dynamic hformed htarget hargs levels _).congr max_le_iff.symm

end TreeQuery.Parser
