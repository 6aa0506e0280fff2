import TreeQuery.Proofs.Parser.Infix

/-!
# Reading keywords

Expressions that start with a keyword. The token behind the keyword tells it from a name: `$` in
front of bindings, a parenthesis, or a brace.
-/

namespace TreeQuery.Parser

variable {α : Type} {fits : Prop} {e body : Expr} {levels : Nat} {least : Precedence} {cs rest after : List Char}
  {word : String}

/-! ### Words in front and behind -/

/-- An operand that starts with a name is read as what the name starts. -/
theorem reads_primary_word (hstarts : Starts cs .name word rest)
    (h : Reads fits (wordOperand (operandAt levels) levels) cs e after) :
    Reads fits (primary (operandAt levels) levels) cs e after := by
  refine reads_current fun t hkind _ => ?_
  rw [hkind, hstarts.kind]
  exact h

/-- An operand in front of a word that is no operator. -/
theorem reads_before_word (he : e.Legible) (hroot : e ≠ .root)
    (hlt : least.rank < Precedence.path.rank) (hstarts : Starts cs .name word rest)
    (hword : infixWords.lookup word = none) (levels : Nat) :
    Reads (e.levels ≤ levels) (operandAt levels least) (e.text ++ ' ' :: cs) e.reread (' ' :: cs) := by
  have hstops (least : Precedence) : Stops least (' ' :: cs) := stops_of_word hstarts.blank hword
  exact reads_opens he.opens ⟨nameEnds_of_kind (by simp) cs, Nat.lt_trans hlt (by decide),
    fun _ => ⟨hlt, hstops _⟩, fun heq => absurd heq hroot⟩ (hstops _) levels

/-! ### Bindings -/

variable {join last : String} {between : Parser Unit}

/-- The value of a binding, in front of another one or of the word behind all bindings. -/
theorem reads_bindingValue {b : Binding} {bs : List Binding} (h : b.value.Legible)
    (hroot : bs.getLast? = some b → b.value ≠ .root) (hstarts : Starts cs .name word rest)
    (hword : infixWords.lookup word = none) {tail : List Char}
    (hends : EndsElement bs b (' ' :: cs) tail) (levels : Nat) :
    Reads (b.value.levels ≤ levels) (single (operandAt levels)) (b.value.text ++ tail) b.value.reread
      tail := by
  rcases hends with ⟨rfl, hlast⟩ | hhead
  · exact reads_before_word h (hroot hlast) (by decide) hstarts hword levels
  · obtain ⟨ds, rfl⟩ : ∃ ds, tail = ',' :: ds := by
      cases tail with
      | nil => contradiction
      | cons c ds => exact ⟨ds, by rw [Option.some.inj hhead]⟩
    have hcomma := starts_mark (c := ',') rfl ds
    exact reads_single h.opens (nameEnds_of_kind (by simp) ds) (by rw [hcomma.kind]; decide) levels

private theorem reads_binding {b : Binding} (hname : b.name.WellFormed)
    (hbetween : ∀ cs, Reads True between (join.toList ++ ' ' :: cs) () (' ' :: cs))
    (hvalue : Reads (b.value.levels ≤ levels) (single (operandAt levels)) (b.value.text ++ rest)
      b.value.reread rest) :
    Reads (b.value.levels ≤ levels) (binding (operandAt levels) between) (b.text join ++ rest) b.reread
      rest := by
  have htext : b.text join ++ rest =
      '$' :: (b.name.render.toList ++ ' ' :: (join.toList ++ ' ' :: (b.value.text ++ rest))) := by
    simp [Binding.text]
  rw [htext]
  refine (reads_expect (starts_mark (c := '$') rfl _) _).then ?_
  refine (reads_qualifiedName hname (nameEnds_of_kind (by simp) _) _).then ?_
  refine (hbetween _).blank.then ?_
  exact hvalue.blank.andThen (fun _ => persists_pure _) reads_pure

/-- Bindings behind their keyword, and what they are for. -/
theorem reads_bindings {b : Binding} {bs : List Binding} (hnames : ∀ b' ∈ b :: bs, b'.name.WellFormed)
    (hvalues : ∀ b' ∈ b :: bs, b'.value.Legible)
    (hroot : ∀ b', (b :: bs).getLast? = some b' → b'.value ≠ .root) (hbody : body.Legible)
    (hkeyword : Starts cs .name word (' ' :: (b.text join ++ (afterCommas (Binding.text join) bs ++
      ' ' :: (last.toList ++ ' ' :: (body.text ++ ')' :: rest))))))
    (hpersists : between.Persists)
    (hbetween : ∀ cs, Reads True between (join.toList ++ ' ' :: cs) () (' ' :: cs))
    (hlast : isSimpleName last.toList = true) (hloose : infixWords.lookup last = none) :
    Reads (Binding.nestingAll (b :: bs) ≤ levels ∧ body.levels ≤ levels)
      (bindings (operandAt levels) between last) cs ((b :: bs).map Binding.reread, body.reread)
      (')' :: rest) := by
  have hstarts : Starts (last.toList ++ ' ' :: (body.text ++ ')' :: rest)) .name last _ :=
    starts_word hlast (breaks_cons (by decide) _)
  have hlist : Reads (∀ b' ∈ b :: bs, b'.value.levels ≤ levels)
      (commaList (binding (operandAt levels) between))
      (b.text join ++ afterCommas (Binding.text join) bs ++ ' ' :: (last.toList ++ ' ' ::
        (body.text ++ ')' :: rest))) ((b :: bs).map Binding.reread) _ :=
    reads_commaList (persists_binding (persists_operandAt levels) hpersists)
      (by rw [nextKind_blank, hstarts.kind]; decide) fun b' hb' _ hends =>
        reads_binding (hnames b' hb') hbetween
          (reads_bindingValue (hvalues b' hb') (hroot b') hstarts hloose hends levels)
  rw [List.append_assoc] at hlist
  refine (reads_advance fun _ _ _ => ?_).congr
    (and_congr_left' Binding.nestingAll_le.symm)
  rw [hkeyword.rest]
  refine hlist.blank.bind (fun _ => ?_) ((reads_expectWord hstarts).blank.then ?_)
  · exact (persists_expectWord _).bind fun _ =>
      (persists_operandAt levels _).bind fun _ => persists_pure _
  · exact (reads_last hbody (by decide) levels rest).blank.andThen (fun _ => persists_pure _)
      reads_pure

/-- A form of bindings behind a keyword. -/
theorem legible_bindings (keyword : String) {b : Binding} {bs : List Binding} (h : ¬ e.IsSequence)
    (htext : ∀ rest, e.text ++ rest = '(' :: (keyword.toList ++ ' ' :: (b.text join ++
      (afterCommas (Binding.text join) bs ++ ' ' :: (last.toList ++ ' ' :: (body.text ++ ')' :: rest))))))
    (hkeyword : isSimpleName keyword.toList = true)
    (hnesting : e.nesting 0 = 2 + max (Binding.nestingAll (b :: bs)) body.levels)
    (hnames : ∀ b' ∈ b :: bs, b'.name.WellFormed) (hvalues : ∀ b' ∈ b :: bs, b'.value.Legible)
    (hroot : ∀ b', (b :: bs).getLast? = some b' → b'.value ≠ .root) (hbody : body.Legible)
    (hpersists : between.Persists)
    (hbetween : ∀ cs, Reads True between (join.toList ++ ' ' :: cs) () (' ' :: cs))
    (hlast : isSimpleName last.toList = true) (hloose : infixWords.lookup last = none)
    (hmeans : ∀ (levels : Nat) (fits : Prop) (cs rest : List Char),
      nextText cs = keyword → nextKind (afterToken cs) = .dollar →
        Reads fits (bindings (operandAt levels) between last) cs
            ((b :: bs).map Binding.reread, body.reread) rest →
          Reads fits (wordOperand (operandAt levels) levels) cs e.reread rest) : e.Legible := by
  have hstarts (cs : List Char) : Starts (keyword.toList ++ ' ' :: (b.text join ++
      (afterCommas (Binding.text join) bs ++ ' ' :: (last.toList ++ ' ' :: (body.text ++ cs))))) .name
      keyword _ := starts_word hkeyword (breaks_cons (by decide) _)
  refine legible_of_primary (fun cs => keyword.toList ++ ' ' :: (b.text join ++
    (afterCommas (Binding.text join) bs ++ ' ' :: (last.toList ++ ' ' :: (body.text ++ cs))))) h htext
    (fun rest => ?_) (by omega) fun levels rest => ?_
  · exact begins_of_starts (hstarts _) (isName_of_isSimpleName hkeyword).head_ne (by decide)
  · have hkeywords := hstarts (')' :: rest)
    have hread : Reads _ (bindings (operandAt levels) between last) _ _ (')' :: rest) :=
      reads_bindings hnames hvalues hroot hbody hkeywords hpersists hbetween hlast hloose
    have hdollar (ds : List Char) : nextKind (' ' :: (b.text join ++ ds)) = .dollar := by
      rw [nextKind_blank, Binding.text, List.cons_append, (starts_mark (c := '$') rfl _).kind]
    have hfollowing := (congrArg nextKind hkeywords.rest).trans (hdollar _)
    refine (reads_primary_word hkeywords
      (hmeans levels _ _ _ hkeywords.text hfollowing hread)).congr ?_
    rw [hnesting]
    omega

private theorem reads_assign (cs : List Char) :
    Reads True (do let _ ← expect .assign "':='") (":=".toList ++ ' ' :: cs) () (' ' :: cs) :=
  (reads_expect (show Starts _ .assign ":=" (' ' :: cs) from ⟨rfl, rfl, rfl⟩) _).then reads_pure

private theorem reads_in (cs : List Char) :
    Reads True (expectWord "in") ("in".toList ++ ' ' :: cs) () (' ' :: cs) :=
  reads_expectWord (starts_word (by decide) (breaks_cons (by decide) cs))

variable {bs : List Binding}

/-- `for` is read back. -/
theorem legible_forEach (hformed : (Expr.forEach bs body).Formed)
    (hreadable : (Expr.forEach bs body).Readable) (hvalues : ∀ b ∈ bs, b.value.Legible)
    (hbody : body.Legible) : (Expr.forEach bs body).Legible := by
  obtain ⟨hne, hnames⟩ := hformed
  obtain ⟨b, bs, rfl⟩ := List.exists_cons_of_ne_nil hne
  refine legible_bindings "for" id (fun rest => Expr.text_forEach ..) (by decide) ?_ hnames hvalues
    hreadable hbody (persists_expectWord _) reads_in (by decide) (by decide)
    fun levels fits cs rest hword hdollar hread => ?_
  · simp only [Expr.nesting, Expr.levels]
    omega
  · refine reads_current fun t _ ht => reads_following.then ?_
    rw [ht, hword, hdollar, Expr.reread, Expr.rereadAt, Binding.rereadAll_eq]
    exact hread.andThen (fun _ => persists_pure _) reads_pure

/-- `let` is read back. -/
theorem legible_letIn (hformed : (Expr.letIn bs body).Formed)
    (hreadable : (Expr.letIn bs body).Readable) (hvalues : ∀ b ∈ bs, b.value.Legible)
    (hbody : body.Legible) : (Expr.letIn bs body).Legible := by
  obtain ⟨hne, hnames⟩ := hformed
  obtain ⟨b, bs, rfl⟩ := List.exists_cons_of_ne_nil hne
  refine legible_bindings "let" id (fun rest => Expr.text_letIn ..) (by decide) ?_ hnames hvalues
    hreadable hbody ((persists_expect _ _).bind fun _ => persists_pure _) reads_assign (by decide)
    (by decide) fun levels fits cs rest hword hdollar hread => ?_
  · simp only [Expr.nesting, Expr.levels]
    omega
  · refine reads_current fun t _ ht => reads_following.then ?_
    rw [ht, hword, hdollar, Expr.reread, Expr.rereadAt, Binding.rereadAll_eq]
    exact hread.andThen (fun _ => persists_pure _) reads_pure

/-- `some` and `every` are read back. -/
theorem legible_quantified {q : Quantifier} (hformed : (Expr.quantified q bs body).Formed)
    (hreadable : (Expr.quantified q bs body).Readable) (hvalues : ∀ b ∈ bs, b.value.Legible)
    (hbody : body.Legible) : (Expr.quantified q bs body).Legible := by
  obtain ⟨hne, hnames⟩ := hformed
  obtain ⟨b, bs, rfl⟩ := List.exists_cons_of_ne_nil hne
  refine legible_bindings q.keyword id (fun rest => Expr.text_quantified ..) (by cases q <;> decide) ?_
    hnames hvalues hreadable hbody (persists_expectWord _) reads_in (by decide) (by decide)
    fun levels fits cs rest hword hdollar hread => ?_
  · simp only [Expr.nesting, Expr.levels]
    omega
  · refine reads_current fun t _ ht => reads_following.then ?_
    rw [ht, hword, hdollar, Expr.reread, Expr.rereadAt, Binding.rereadAll_eq]
    cases q with
    | some | every => exact hread.andThen (fun _ => persists_pure _) reads_pure

/-! ### Choices -/

variable {c t f : Expr}

private theorem reads_choice (hc : c.Legible) (ht : t.Legible) (hroot : t ≠ .root) (hf : f.Legible)
    (levels : Nat) (rest : List Char) :
    Reads (c.nesting 0 ≤ levels ∧ t.levels ≤ levels ∧ f.levels ≤ levels) (choice (operandAt levels))
      ("if".toList ++ ' ' :: '(' :: (c.render.toList ++ ')' :: ' ' :: ("then".toList ++ ' ' ::
        (t.text ++ ' ' :: ("else".toList ++ ' ' :: (f.text ++ ')' :: rest))))))
      (.ifThenElse c.reread t.reread f.reread) (')' :: rest) := by
  have hword (word : String) (h : isSimpleName word.toList = true) (cs : List Char) :
      Starts (word.toList ++ ' ' :: cs) .name word (' ' :: cs) :=
    starts_word h (breaks_cons (by decide) cs)
  have hif := hword "if" (by decide) ('(' :: (c.render.toList ++ ')' :: ' ' ::
    ("then".toList ++ ' ' :: (t.text ++ ' ' :: ("else".toList ++ ' ' :: (f.text ++ ')' :: rest))))))
  have hthen := hword "then" (by decide)
    (t.text ++ ' ' :: ("else".toList ++ ' ' :: (f.text ++ ')' :: rest)))
  have helse := hword "else" (by decide) (f.text ++ ')' :: rest)
  refine reads_advance fun _ _ _ => ?_
  rw [hif.rest]
  refine ((reads_expect (starts_leftParen ?_) _).blank).then ?_
  · exact (hc.beginsAlone _ (nameEnds_rightParen _)).head
  have hclose := starts_mark (c := ')') rfl (' ' :: ("then".toList ++ ' ' :: (t.text ++ ' ' ::
    ("else".toList ++ ' ' :: (f.text ++ ')' :: rest)))))
  refine (hc.alone levels _ (nameEnds_rightParen _) (by rw [hclose.kind]; decide)).bind
    (fun _ => ?_) ((reads_expect hclose _).then ((reads_expectWord hthen).blank.then ?_))
  · exact (persists_expect _ _).bind fun _ => (persists_expectWord _).bind fun _ =>
      (persists_operandAt levels _).bind fun _ => (persists_expectWord _).bind fun _ =>
        (persists_operandAt levels _).bind fun _ => persists_pure _
  refine (reads_before_word ht hroot (by decide) helse (by decide) levels).blank.bind
    (fun _ => ?_) ((reads_expectWord helse).blank.then ?_)
  · exact (persists_expectWord _).bind fun _ =>
      (persists_operandAt levels _).bind fun _ => persists_pure _
  · exact (reads_last hf (by decide) levels rest).blank.andThen (fun _ => persists_pure _) reads_pure

/-- `if` is read back. -/
theorem legible_ifThenElse (hreadable : (Expr.ifThenElse c t f).Readable) (hc : c.Legible)
    (ht : t.Legible) (hf : f.Legible) : (Expr.ifThenElse c t f).Legible := by
  have hstarts (cs : List Char) : Starts ("if".toList ++ ' ' :: '(' :: cs) .name "if"
      (' ' :: '(' :: cs) := starts_word (by decide) (breaks_cons (by decide) _)
  refine legible_of_primary (fun cs => "if".toList ++ ' ' :: '(' :: (c.render.toList ++ ')' :: ' ' ::
    ("then".toList ++ ' ' :: (t.text ++ ' ' :: ("else".toList ++ ' ' :: (f.text ++ cs)))))) id
    (fun rest => Expr.text_ifThenElse rest c t f) (fun rest => ?_) ?_ fun levels rest => ?_
  · exact begins_of_starts (hstarts _) (by simp) (by decide)
  · simp only [Expr.nesting]
    omega
  · have hopen := starts_leftParen (hc.beginsAlone _ (nameEnds_rightParen (' ' :: ("then".toList ++
      ' ' :: (t.text ++ ' ' :: ("else".toList ++ ' ' :: (f.text ++ ')' :: rest))))))).head
    refine reads_primary_word (hstarts _) (reads_current fun token _ htext =>
      reads_following.then ?_)
    rw [htext, (hstarts _).text, (hstarts _).rest, nextKind_blank, hopen.kind]
    refine (reads_choice hc ht hreadable hf levels rest).congr ?_
    simp only [Expr.nesting, Expr.levels]
    omega

end TreeQuery.Parser
