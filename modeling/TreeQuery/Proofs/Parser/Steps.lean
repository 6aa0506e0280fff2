import TreeQuery.Proofs.Parser.Atoms

/-!
# Reading steps

A step is printed with its axis, so it is told from a call and from a name by the two colons. Behind
its test come predicates, up to what does not open a bracket.
-/

namespace TreeQuery

/-- No star belongs to a qualified name. -/
theorem QName.WellFormed.star_not_mem {n : QName} (h : n.WellFormed) : '*' ∉ n.render.toList := by
  obtain ⟨hlocal, ⟨-, htext⟩ | ⟨q, -, hq, htext⟩⟩ := h.toList_render
  · rw [htext]
    exact hlocal.not_mem (by decide)
  · rw [htext]
    intro hmem
    rcases List.mem_append.mp hmem with hmem | hmem
    · exact hq.not_mem (by decide) hmem
    · rcases List.mem_cons.mp hmem with heq | hmem
      · exact absurd heq (by decide)
      · exact hlocal.not_mem (by decide) hmem

/-- The axis that a step is taken along: a test for attributes is not made along the children. -/
def Axis.taken (axis : Axis) (test : NodeTest) : Axis :=
  match test, axis with
  | .kind (.attribute _), .child => .attribute
  | _, axis => axis

end TreeQuery

namespace TreeQuery.Parser

variable {rest : List Char} {test : NodeTest} {levels : Nat}

/-! ### Name tests -/

/-- A text that is a qualified name is read as the test for that name. -/
theorem reads_nameTestOf_named {n : QName} (h : n.WellFormed) (start : Token) :
    Reads True (nameTestOf start n.render) rest (.named n) rest := by
  have hstar := h.star_not_mem
  have hopening : ['*', ':'].isPrefixOf n.render.toList = false := by
    by_contra hopening
    rw [Bool.not_eq_false, List.isPrefixOf_iff_prefix] at hopening
    exact hstar (hopening.subset (by simp))
  have hclosing : [':', '*'].isSuffixOf n.render.toList = false := by
    by_contra hclosing
    rw [Bool.not_eq_false, List.isSuffixOf_iff_suffix] at hclosing
    exact hstar (hclosing.subset (by simp))
  have hname : n.render.toList ≠ ['*'] := by
    intro heq
    exact hstar (heq ▸ List.mem_singleton_self _)
  unfold nameTestOf
  simp only [hname, hopening, hclosing, if_false, Bool.false_eq_true]
  exact (reads_nameOf h start).then reads_pure

private theorem reads_nameTestOf_anyQualifier {l : String} (start : Token) :
    Reads True (nameTestOf start ("*:" ++ l)) rest (.anyQualifier l) rest := by
  have htext : ("*:" ++ l).toList = '*' :: ':' :: l.toList := by simp
  unfold nameTestOf
  simp only [htext]
  have hdrop : String.ofList (('*' :: ':' :: l.toList).drop 2) = l := by simp
  rw [if_neg (by simp), if_pos (by simp [List.isPrefixOf]), hdrop]
  exact reads_pure

private theorem reads_nameTestOf_anyLocal {q : String} (h : IsName q.toList) (start : Token) :
    Reads True (nameTestOf start (q ++ ":*")) rest (.anyLocal q) rest := by
  have htext : (q ++ ":*").toList = q.toList ++ [':', '*'] := by simp
  have hopening : ['*', ':'].isPrefixOf (q.toList ++ [':', '*']) = false := by
    obtain ⟨c, cs, hcons, hc, -⟩ := h.start
    have hne : c ≠ '*' := isNameStart_ne hc (by decide)
    rw [hcons]
    simp [List.isPrefixOf, Ne.symm hne]
  have hclosing : [':', '*'].isSuffixOf (q.toList ++ [':', '*']) = true :=
    List.isSuffixOf_iff_suffix.mpr (List.suffix_append _ _)
  have htake : String.ofList ((q.toList ++ [':', '*']).take ((q.toList ++ [':', '*']).length - 2)) = q := by
    simp
  have hne : q.toList ++ [':', '*'] ≠ ['*'] := by
    intro heq
    have hlength := congrArg List.length heq
    simp at hlength
  unfold nameTestOf
  simp only [htext, hne, hopening, hclosing, htake, if_false, if_true, Bool.false_eq_true]
  exact reads_pure

/-! ### Node tests -/

/-- Whether a kind test comes next is told by the next two tokens. -/
theorem reads_isAtKindTest_false {cs : List Char} (h : nextKind (afterToken cs) ≠ .leftParen) :
    Reads True isAtKindTest cs false cs := by
  refine reads_current fun t _ _ => reads_following.then ?_
  rw [beq_false_of_ne h, Bool.and_false, Bool.false_and]
  exact reads_pure

/-- A test for names is read as far as its text goes. -/
theorem reads_nodeTest_name {text word : String} {kind : TokenKind} {behind : List Char}
    (hstarts : Starts (text.toList ++ rest) kind word behind) (hkind : kind ∈ [.name, .star])
    (hbehind : nextKind behind ≠ .leftParen)
    (htake : Reads True takeName (text.toList ++ rest) text rest)
    (htest : ∀ start, Reads True (nameTestOf start text) rest test rest) (levels : Nat) :
    Reads True (nodeTest levels) (text.toList ++ rest) test rest := by
  have hfollowing : nextKind (afterToken (text.toList ++ rest)) ≠ .leftParen := by
    rw [hstarts.rest]
    exact hbehind
  refine (reads_isAtKindTest_false hfollowing).then ?_
  refine (reads_isAt .name).then ((reads_isAt .star).then ?_)
  have hname : (nextKind (text.toList ++ rest) == .name || nextKind (text.toList ++ rest) == .star) =
      true := by
    rw [hstarts.kind]
    simp only [List.mem_cons, List.not_mem_nil, or_false] at hkind
    rcases hkind with rfl | rfl <;> rfl
  rw [hname]
  exact reads_current fun start _ _ => htake.then (htest start)

/-- A node test with a word is read back, however its argument is written. -/
theorem reads_nodeTest_kind {n : Nat} {test : KindTest} {cs : List Char} (h : test.Written n cs)
    (hle : n ≤ levels) (rest : List Char) :
    Reads True (nodeTest levels) (test.keyword.toList ++ '(' :: (cs ++ ')' :: rest)) (.kind test)
      rest :=
  (reads_isAtKindTest_true h rest).then ((reads_kindTest h hle rest).then reads_pure)

/-- The test of a step is read back. -/
theorem reads_nodeTest (hformed : test.WellFormed) (hreadable : test.Readable) (hrest : NameEnds rest)
    (hparen : nextKind rest ≠ .leftParen) (levels : Nat) :
    Reads True (nodeTest levels) (test.render.toList ++ rest) test.reread rest := by
  cases test with
  | named n =>
    have hname : n.WellFormed := hformed
    obtain ⟨word, rest', hstarts, hword⟩ := exists_starts_render hname hrest
    have hbehind : nextKind rest' ≠ .leftParen := by
      rcases hword with ⟨-, -, rfl⟩ | hcolon
      · exact hparen
      · exact hcolon.trans_ne (by decide)
    exact reads_nodeTest_name hstarts (by decide) hbehind (reads_takeName hname hrest)
      (reads_nameTestOf_named hname) levels
  | anyName =>
    have hstar : Starts ("*".toList ++ rest) .star "*" rest := starts_mark rfl rest
    exact reads_nodeTest_name hstar (by decide) hparen (reads_takeName_simple (Or.inr rfl) hrest)
      (fun _ => reads_pure) levels
  | anyQualifier l =>
    have hl : IsName l.toList := isName_of_isSimpleName hformed
    have htext : ("*:" ++ l).toList = '*' :: ':' :: l.toList := by simp
    have hstar := starts_mark (c := '*') rfl (':' :: (l.toList ++ rest))
    have hcolon := starts_colon_isNamePart (Or.inl hl) rest
    have htake := reads_takeName_qualified (Or.inr rfl) (Or.inl hl) (Or.inr hl) hrest
    change Reads True takeName ('*' :: ':' :: (l.toList ++ rest))
      (String.ofList ('*' :: ':' :: l.toList)) rest at htake
    rw [← htext, String.ofList_toList, ← List.cons_append, ← List.cons_append, ← htext] at htake
    rw [← List.cons_append, ← List.cons_append, ← htext] at hstar
    exact reads_nodeTest_name hstar (by decide) (hcolon.kind.trans_ne (by decide)) htake
      reads_nameTestOf_anyQualifier levels
  | anyLocal q =>
    have hq : IsName q.toList := isName_of_isSimpleName hformed
    have htext : (q ++ ":*").toList = q.toList ++ ':' :: ['*'] := by simp
    have hstarts := hq.starts (breaks_cons (c := ':') (by decide) (['*'] ++ rest))
    have hcolon := starts_colon_isNamePart (Or.inr rfl) rest
    have htake := reads_takeName_qualified (Or.inl hq) (Or.inr rfl) (Or.inl hq) hrest
    rw [← htext, String.ofList_toList, ← List.cons_append, ← List.append_assoc, ← htext] at htake
    rw [← List.cons_append, ← List.append_assoc, ← htext] at hstarts
    exact reads_nodeTest_name hstarts (by decide) (hcolon.kind.trans_ne (by decide)) htake
      (reads_nameTestOf_anyLocal hq) levels
  | kind test =>
    rw [NodeTest.render, test.toList_render, NodeTest.reread, ← test.keyword_reread]
    exact reads_nodeTest_kind (test.written_argument hformed hreadable levels) (Nat.le_refl _) rest

/-! ### Predicates -/

/-- What ends a path opens no bracket. -/
theorem kind_ne_of_stops (h : Stops .path rest) {kind : TokenKind}
    (hkind : kind ∈ [.leftBracket, .leftParen, .question]) : nextKind rest ≠ kind := by
  rintro rfl
  have hchain : Precedence.chain.rank ≤ Precedence.path.rank := by
    refine h ⟨nextKind rest, nextText rest, 0, false⟩ rfl rfl .chain ?_
    simp only [List.mem_cons, List.not_mem_nil, or_false] at hkind
    rcases hkind with hkind | hkind | hkind <;> simp [Token.infixPrecedence?, hkind]
  exact absurd hchain (by decide)

/-- Predicates are read up to what opens no bracket. -/
theorem reads_predicates {es : List Expr} (h : ∀ e ∈ es, e.Legible)
    (hrest : nextKind rest ≠ .leftBracket) (levels : Nat) :
    Reads (Expr.nestingPredicates es ≤ levels) (predicates (operandAt levels))
      (Expr.predicatesText es ++ rest) (es.map Expr.reread) rest := by
  rw [Expr.nestingPredicates_le]
  induction es with
  | nil => exact (reads_many_nil _ _ hrest).congr (by simp)
  | cons e es ih =>
    rw [List.forall_mem_cons] at h
    rw [Expr.predicatesText_cons, List.map_cons]
    have hclose := starts_mark (c := ']') rfl (Expr.predicatesText es ++ rest)
    have hpersists := persists_commaExpr (persists_operandAt levels)
    have hpredicate : Reads (e.nesting 0 ≤ levels)
        (do
          let e ← commaExpr (operandAt levels)
          let _ ← expect .rightBracket "']'"
          return e)
        (e.render.toList ++ ']' :: (Expr.predicatesText es ++ rest)) e.reread
        (Expr.predicatesText es ++ rest) := by
      refine (h.1.alone levels _ (nameEnds_of_kind (by simp) _) (by rw [hclose.kind]; decide)).andThen
        (fun _ => (persists_expect _ _).bind fun _ => persists_pure _) ?_
      exact (reads_expect hclose _).then reads_pure
    refine (reads_many_cons ?_ (starts_mark (c := '[') rfl _) (by decide) hpredicate (ih h.2)).congr ?_
    · exact hpersists.bind fun _ => (persists_expect _ _).bind fun _ => persists_pure _
    · rw [List.forall_mem_cons]

/-! ### Steps -/

variable {axis : Axis} {es : List Expr}

/-- Predicates end a name in front of them. -/
theorem nameEnds_predicates (es : List Expr) (hrest : NameEnds rest) :
    NameEnds (Expr.predicatesText es ++ rest) := by
  cases es with
  | nil => exact hrest
  | cons e es =>
    rw [Expr.predicatesText_cons]
    exact nameEnds_of_kind (by simp) _

/-- Predicates do not start with a parenthesis. -/
theorem kind_predicates (es : List Expr) (hrest : nextKind rest ≠ .leftParen) :
    nextKind (Expr.predicatesText es ++ rest) ≠ .leftParen := by
  cases es with
  | nil => exact hrest
  | cons e es =>
    rw [Expr.predicatesText_cons, (starts_mark (c := '[') rfl _).kind]
    decide

private theorem eq_attribute_of_reread {name : Option QName}
    (h : test.reread = .kind (.attribute name)) :
    test = .kind (.attribute name) := by
  cases test with
  | kind test =>
    simp only [NodeTest.reread, NodeTest.kind.injEq, KindTest.reread] at h
    split at h
    · contradiction
    · rw [h]
  | named _ | anyName | anyQualifier _ | anyLocal _ => contradiction

/-- A step is read behind its axis. The axis stays as it is written, unless attributes are tested for
along the children. -/
theorem reads_step_written {cs : List Char}
    (htest : Reads True (nodeTest levels) (cs ++ (Expr.predicatesText es ++ rest)) test
      (Expr.predicatesText es ++ rest))
    (h : ∀ e ∈ es, e.Legible) (hrest : nextKind rest ≠ .leftBracket) :
    Reads (Expr.nestingPredicates es ≤ levels) (step (operandAt levels) levels axis)
      (cs ++ (Expr.predicatesText es ++ rest)) (.step (axis.taken test) test (es.map Expr.reread))
      rest := by
  exact htest.then ((reads_predicates h hrest levels).andThen (fun _ => persists_pure _) reads_pure)

private theorem reads_step (hformed : (Expr.step axis test es).Formed) (hreadable : test.Readable)
    (h : ∀ e ∈ es, e.Legible) (hrest : NameEnds rest) (hstops : Stops .path rest) (levels : Nat) :
    Reads (Expr.nestingPredicates es ≤ levels) (step (operandAt levels) levels axis)
      (test.render.toList ++ (Expr.predicatesText es ++ rest))
      (.step axis test.reread (es.map Expr.reread)) rest := by
  have htest := reads_nodeTest hformed.1 hreadable (nameEnds_predicates es hrest)
    (kind_predicates es (kind_ne_of_stops hstops (by decide))) levels
  have htaken : axis.taken test.reread = axis := by
    unfold Axis.taken
    split
    · next name heq => exact absurd (eq_attribute_of_reread heq) (hformed.2 rfl name)
    · rfl
  have hstep : Reads _ (step (operandAt levels) levels axis) _ _ _ :=
    reads_step_written htest h (kind_ne_of_stops hstops (by decide))
  rwa [htaken] at hstep

/-- The names of axes are simple names. -/
theorem isSimpleName_axis (axis : Axis) : isSimpleName axis.name.toList = true := by
  cases axis <;> decide

private theorem ofName?_name (axis : Axis) : Axis.ofName? axis.name = some axis := by
  cases axis <;> decide

/-- The name of an axis is read as one token. -/
theorem starts_axis (axis : Axis) (cs : List Char) :
    Starts (axis.name.toList ++ ':' :: ':' :: cs) .name axis.name (':' :: ':' :: cs) :=
  starts_word (isSimpleName_axis axis) (breaks_cons (by decide) _)

/-- Two colons behind a word tell a step from everything else. -/
theorem reads_primary_axis {fits : Prop} {cs : List Char} {e : Expr}
    (hstep : Reads fits (step (operandAt levels) levels axis) cs e rest) :
    Reads fits (primary (operandAt levels) levels) (axis.name.toList ++ ':' :: ':' :: cs) e rest := by
  have hcolons : Starts (':' :: ':' :: cs) .colonColon "::" cs := ⟨rfl, rfl, rfl⟩
  have hstarts := starts_axis axis cs
  refine reads_primary_word hstarts (reads_current fun t _ ht => reads_following.then ?_)
  rw [ht, hstarts.text, hstarts.rest, hcolons.kind]
  have haxis : Reads fits (axisStep (operandAt levels) levels)
      (axis.name.toList ++ ':' :: ':' :: cs) e rest := by
    refine reads_advance fun t _ ht => ?_
    rw [hstarts.text] at ht
    rw [hstarts.rest, ht]
    refine reads_advance fun _ _ _ => ?_
    rw [hcolons.rest, ofName?_name]
    exact hstep
  split <;> first | exact haxis | contradiction

/-- A step is read back where a path may end. -/
theorem reads_primary_step (hformed : (Expr.step axis test es).Formed) (hreadable : test.Readable)
    (h : ∀ e ∈ es, e.Legible) (hrest : NameEnds rest) (hstops : Stops .path rest) (levels : Nat) :
    Reads (Expr.nestingPredicates es ≤ levels) (primary (operandAt levels) levels)
      ((Expr.step axis test es).text ++ rest) (Expr.step axis test es).reread rest := by
  rw [Expr.text_step, Expr.reread, Expr.rereadAt, Expr.rereadAll_eq]
  exact reads_primary_axis (reads_step hformed hreadable h hrest hstops levels)

end TreeQuery.Parser
