import TreeQuery.Proofs.Parser.Keywords

/-!
# Reading constructors

Functions without a name, maps and arrays. What stands in them is closed by a brace or a bracket, and
needs no parentheses.
-/

namespace TreeQuery.Parser

variable {e body : Expr} {levels : Nat} {cs rest after : List Char} {word : String}

/-! ### Braces -/

/-- A blank ends a name. -/
theorem nameEnds_blank (cs : List Char) : NameEnds (' ' :: cs) := nameEnds_of_kind (by simp) cs

/-- Behind a blank a closing brace is the next token. -/
theorem nextKind_rightBrace (rest : List Char) : nextKind (' ' :: '\x7d' :: rest) = .rightBrace :=
  (nextKind_blank _).trans (starts_mark (c := '\x7d') rfl rest).kind

private theorem reads_block (h : e.Legible) (levels : Nat) (rest : List Char) :
    Reads (e.nesting 0 ≤ levels) (block (operandAt levels))
      (' ' :: (e.render.toList ++ ' ' :: '\x7d' :: rest)) e.reread rest := by
  have hclose := (starts_mark (c := '\x7d') rfl rest).blank
  have hbegins := h.beginsAlone _ (nameEnds_blank ('\x7d' :: rest))
  have halone := h.alone levels (' ' :: '\x7d' :: rest) (nameEnds_blank _)
    (by rw [nextKind_rightBrace]; decide)
  refine Reads.blank ((reads_isAt .rightBrace).then ?_)
  rw [beq_false_of_ne (hbegins.ne (by decide))]
  exact halone.andThen (fun _ => (persists_expect _ _).bind fun _ => persists_pure _)
    ((reads_expect hclose _).then reads_pure)

/-- A form that starts with a keyword and is not put in parentheses. -/
theorem legible_of_word (word : String) (inner : List Char → List Char) (h : ¬ e.IsSequence)
    (hword : isSimpleName word.toList = true)
    (htext : ∀ rest, e.text ++ rest = word.toList ++ inner rest) (hinner : ∀ rest, Breaks (inner rest))
    (hreads : ∀ levels rest, Starts (word.toList ++ inner rest) .name word (inner rest) →
      Reads (e.nesting 0 ≤ levels + 1) (wordOperand (operandAt levels) levels)
        (word.toList ++ inner rest) e.reread rest) : e.Legible := by
  have hstarts (rest : List Char) := starts_word hword (hinner rest)
  refine legible_of_opens (Or.inl h) (fun rest _ => ?_) (opens_of_primary fun levels rest _ => ?_)
  · rw [htext]
    exact begins_of_starts (hstarts rest) (isName_of_isSimpleName hword).head_ne (by decide)
  · rw [htext, Expr.levels_of_not_sequence h]
    exact reads_primary_word (hstarts rest) (hreads levels rest (hstarts rest))

/-! ### Functions without a name -/

private theorem reads_typeBehindAs {type : Option SequenceType}
    (hformed : ∀ t, type = some t → t.WellFormed)
    (hreadable : ∀ t, type = some t → t.Readable) (hrest : TypeEnds rest) (levels : Nat) :
    Reads True (typeBehindAs levels) (asText type ++ rest) (type.map SequenceType.reread)
      rest := by
  cases type with
  | none =>
    refine (reads_isAtWord "as").then ?_
    change Reads _ (if (nextKind rest == .name && nextText rest == "as") = true then _ else _) rest _ _
    rw [beq_false_of_ne hrest.word, Bool.false_and]
    exact reads_pure
  | some t =>
    have hword : Starts ("as".toList ++ ' ' :: (t.render.toList ++ rest)) .name "as"
        (' ' :: (t.render.toList ++ rest)) := starts_word (by decide) (breaks_cons (by decide) _)
    have htext : asText (some t) ++ rest = ' ' :: ("as".toList ++ ' ' :: (t.render.toList ++ rest)) := by
      simp [asText]
    rw [htext]
    refine Reads.blank ((reads_isAtWord "as").then ?_)
    rw [hword.kind, hword.text]
    refine reads_advance fun _ _ _ => ?_
    rw [hword.rest]
    exact (reads_sequenceType (hformed t rfl) (hreadable t rfl) hrest levels).blank.then reads_pure

private theorem nameEnds_asText (type : Option SequenceType) (hrest : NameEnds rest) :
    NameEnds (asText type ++ rest) := by
  cases type with
  | none => exact hrest
  | some t => exact nameEnds_blank _

private theorem reads_parameter {p : Param} (hformed : p.WellFormed)
    (hreadable : ∀ t, p.type = some t → t.Readable) (hrest : TypeEnds rest) (levels : Nat) :
    Reads True (parameter levels) (p.render.toList ++ rest) p.reread rest := by
  rw [p.toList_render, List.cons_append, List.append_assoc]
  refine (reads_expect (starts_mark (c := '$') rfl _) _).then ?_
  refine (reads_qualifiedName hformed.name (nameEnds_asText p.type hrest.name) _).then ?_
  exact (reads_typeBehindAs hformed.type hreadable hrest levels).then reads_pure

private theorem typeEnds_comma (cs : List Char) : TypeEnds (',' :: cs) := by
  have hcomma := (starts_mark (c := ',') rfl cs).kind
  exact ⟨⟨nameEnds_of_kind (by simp) cs, hcomma.trans_ne (by decide)⟩, hcomma.trans_ne (by decide),
    hcomma.trans_ne (by decide), hcomma.trans_ne (by decide)⟩

/-- What the parameters of a function are followed by: its result type and its body. -/
def behindParams (result : Option SequenceType) (body : Expr) (rest : List Char) : List Char :=
  asText result ++ ' ' :: '\x7b' :: ' ' :: (body.render.toList ++ ' ' :: '\x7d' :: rest)

private theorem reads_behindParams {result : Option SequenceType}
    (hformed : ∀ t, result = some t → t.WellFormed)
    (hreadable : ∀ t, result = some t → t.Readable) (hbody : body.Legible) (params : List Param)
    (levels : Nat) (rest : List Char) :
    Reads (body.nesting 0 ≤ levels)
      (do
        let result ← typeBehindAs levels
        let _ ← expect .leftBrace "'\x7b'"
        return Expr.inlineFunction params result (← block (operandAt levels)))
      (behindParams result body rest)
      (.inlineFunction params (result.map SequenceType.reread) body.reread) rest := by
  have hopen := (starts_mark (c := '\x7b') rfl
    (' ' :: (body.render.toList ++ ' ' :: '\x7d' :: rest))).blank
  have hends : TypeEnds (' ' :: '\x7b' :: ' ' :: (body.render.toList ++ ' ' :: '\x7d' :: rest)) :=
    ⟨⟨nameEnds_blank _, hopen.kind.trans_ne (by decide)⟩, hopen.kind.trans_ne (by decide),
      hopen.kind.trans_ne (by decide), hopen.kind.trans_ne (by decide)⟩
  refine (reads_typeBehindAs hformed hreadable hends levels).then ?_
  refine (reads_expect hopen _).then ?_
  exact (reads_block hbody levels rest).andThen (fun _ => persists_pure _) reads_pure

/-- Parameters up to the parenthesis behind them. -/
theorem reads_parameters {p : Param} {ps : List Param} (hformed : ∀ p' ∈ p :: ps, p'.WellFormed)
    (hreadable : ∀ p' ∈ p :: ps, ∀ t, p'.type = some t → t.Readable) (levels : Nat)
    (rest : List Char) :
    Reads True (commaList (parameter levels))
      ((commaSeparated ((p :: ps).map Param.render)).toList ++ ')' :: rest)
      ((p :: ps).map Param.reread) (')' :: rest) := by
  have hclose := starts_mark (c := ')') rfl rest
  have hends {p' : Param} {tail : List Char}
      (hends : EndsElement (p :: ps) p' (')' :: rest) tail) : TypeEnds tail := by
    rcases hends with ⟨rfl, -⟩ | hhead
    · exact typeEnds_rightParen rest
    · cases tail with
      | nil => contradiction
      | cons c cs =>
        rw [Option.some.inj hhead]
        exact typeEnds_comma cs
  have hlist : Reads (∀ p' ∈ p :: ps, True) (commaList (parameter levels))
      (p.render.toList ++ afterCommas (fun p => p.render.toList) ps ++ ')' :: rest)
      ((p :: ps).map Param.reread) (')' :: rest) :=
    reads_commaList (persists_parameter levels) (hclose.kind.trans_ne (by decide))
      fun p' hp' _ hend => reads_parameter (hformed p' hp') (hreadable p' hp') (hends hend) levels
  rw [toList_commaSeparated]
  exact hlist.congr (by simp)

private theorem reads_inlineFunction {params : List Param} {result : Option SequenceType}
    (hformed : (Expr.inlineFunction params result body).Formed)
    (hreadable : (Expr.inlineFunction params result body).Readable) (hbody : body.Legible)
    (hstarts : Starts cs .name word ('(' :: ((commaSeparated (params.map Param.render)).toList ++
      ')' :: behindParams result body rest))) (levels : Nat) :
    Reads (body.nesting 0 ≤ levels) (inlineFunction (operandAt levels) levels) cs
      (.inlineFunction (params.map Param.reread) (result.map SequenceType.reread) body.reread) rest := by
  have hbehind (params : List Param) :=
    reads_behindParams hformed.2 hreadable.2 hbody params levels rest
  refine reads_advance fun _ _ _ => ?_
  rw [hstarts.rest]
  refine reads_advance fun _ _ _ => ?_
  cases params with
  | nil =>
    have hopen : Starts ('(' :: ')' :: behindParams result body rest) .leftParen "(" _ :=
      starts_leftParen (by simp)
    change Reads _ _ (afterToken ('(' :: ')' :: behindParams result body rest)) _ _
    rw [hopen.rest]
    exact (reads_eat (starts_mark rfl _)).then (reads_pure.then (hbehind []))
  | cons p ps =>
    have hfirst : ∃ ds, (commaSeparated ((p :: ps).map Param.render)).toList ++
        ')' :: behindParams result body rest = '$' :: ds := by
      rw [toList_commaSeparated, p.toList_render]
      exact ⟨_, rfl⟩
    have hparams := reads_parameters hformed.1 hreadable.1 levels (behindParams result body rest)
    obtain ⟨ds, hds⟩ := hfirst
    rw [hds] at hparams ⊢
    have hdollar := starts_mark (c := '$') rfl ds
    rw [(starts_leftParen (by simp)).rest]
    refine (reads_eat_of_ne (hdollar.kind.trans_ne (by decide))).then ?_
    refine hparams.then ?_
    exact (reads_expect (starts_mark rfl _) _).then (reads_pure.then (hbehind _))

/-- Functions are read back. -/
theorem legible_inlineFunction {params : List Param} {result : Option SequenceType}
    (hformed : (Expr.inlineFunction params result body).Formed)
    (hreadable : (Expr.inlineFunction params result body).Readable) (hbody : body.Legible) :
    (Expr.inlineFunction params result body).Legible := by
  refine legible_of_word "function" (fun rest => '(' ::
    ((commaSeparated (params.map Param.render)).toList ++ ')' :: behindParams result body rest)) id
    (by decide) (fun rest => Expr.text_inlineFunction rest params result body)
    (fun _ => breaks_cons (by decide) _) fun levels rest hstarts => ?_
  have hhead : ((commaSeparated (params.map Param.render)).toList ++
      ')' :: behindParams result body rest).head? ≠ some ':' := by
    cases params with
    | nil => simp [commaSeparated]
    | cons p ps =>
      rw [toList_commaSeparated, p.toList_render]
      simp
  refine reads_current fun token _ htoken => reads_following.then ?_
  rw [htoken, hstarts.text, hstarts.rest, (starts_leftParen hhead).kind]
  refine (reads_inlineFunction hformed hreadable hbody hstarts levels).congr ?_
  simp only [Expr.nesting]
  omega

/-! ### Maps -/

/-- A colon with a blank behind it does not belong to a name. -/
theorem nameEnds_colon (cs : List Char) : NameEnds (':' :: ' ' :: cs) := by
  refine ⟨breaks_cons (by decide) _, fun ds heq => ?_⟩
  rw [← (List.cons.inj heq).2]
  rfl

private theorem reads_entry {entry' : Entry} (hkey : entry'.key.Legible)
    (hvalue : Reads (entry'.value.levels ≤ levels) (single (operandAt levels))
      (entry'.value.text ++ rest) entry'.value.reread rest) :
    Reads (entry'.key.levels ≤ levels ∧ entry'.value.levels ≤ levels) (entry (operandAt levels))
      (entry'.text ++ rest) entry'.reread rest := by
  have hcolon : Starts (':' :: ' ' :: (entry'.value.text ++ rest)) .colon ":" _ := ⟨rfl, rfl, rfl⟩
  have htext : entry'.text ++ rest = entry'.key.text ++ ':' :: ' ' :: (entry'.value.text ++ rest) := by
    simp [Entry.text]
  rw [htext]
  refine (reads_single hkey.opens (nameEnds_colon _) (by rw [hcolon.kind]; decide) levels).bind (fun _ => ?_)
    ((reads_expect hcolon _).then (hvalue.blank.andThen (fun _ => persists_pure _) reads_pure))
  exact (persists_expect _ _).bind fun _ =>
    (persists_operandAt levels _).bind fun _ => persists_pure _

private theorem reads_entries {entry' : Entry} {es : List Entry}
    (h : ∀ m ∈ entry' :: es, m.key.Legible ∧ m.value.Legible) (levels : Nat) (rest : List Char) :
    Reads (Entry.nestingAll (entry' :: es) ≤ levels) (commaList (entry (operandAt levels)))
      (entry'.text ++ (afterCommas Entry.text es ++ ' ' :: '}' :: rest))
      ((entry' :: es).map Entry.reread) (' ' :: '}' :: rest) := by
  have hclose := nextKind_rightBrace rest
  have hlist : Reads (∀ m ∈ entry' :: es, m.key.levels ≤ levels ∧ m.value.levels ≤ levels)
      (commaList (entry (operandAt levels)))
      (entry'.text ++ afterCommas Entry.text es ++ ' ' :: '}' :: rest)
      ((entry' :: es).map Entry.reread) (' ' :: '}' :: rest) :=
    reads_commaList (persists_entry (persists_operandAt levels)) (hclose.trans_ne (by decide))
      fun m hm _ hends => reads_entry (h m hm).1
        (reads_element (h m hm).2 (hends.imp_left And.left) (nameEnds_blank _)
          (by rw [hclose]; decide) levels)
  rw [List.append_assoc] at hlist
  exact hlist.congr Entry.nestingAll_le.symm

/-- What stands between the braces of a map. -/
def entriesText : List Entry → List Char
  | [] => []
  | e :: es => ' ' :: (e.text ++ afterCommas Entry.text es ++ [' '])

/-- A map is written with its entries in braces. -/
theorem text_mapOf_entries (entries : List Entry) (rest : List Char) :
    (Expr.mapOf entries).text ++ rest =
      "map".toList ++ ' ' :: '{' :: (entriesText entries ++ '}' :: rest) := by
  cases entries with
  | nil =>
    change "map \x7b\x7d".toList ++ rest = _
    simp [entriesText]
  | cons e es =>
    rw [Expr.text_mapOf]
    simp [entriesText]

private theorem reads_mapConstructor {entries : List Entry}
    (h : ∀ m ∈ entries, m.key.Legible ∧ m.value.Legible)
    (hstarts : Starts cs .name word (' ' :: '{' :: (entriesText entries ++ '}' :: rest)))
    (levels : Nat) :
    Reads (Entry.nestingAll entries ≤ levels) (mapConstructor (operandAt levels)) cs
      (.mapOf (entries.map Entry.reread)) rest := by
  refine reads_advance fun _ _ _ => ?_
  rw [hstarts.rest]
  refine reads_advance fun _ _ _ => ?_
  rw [(starts_mark (c := '{') rfl _).blank.rest]
  cases entries with
  | nil =>
    refine Reads.congr ?_ (iff_true_intro (Nat.zero_le levels)).symm
    exact (reads_eat (starts_mark rfl rest)).then reads_pure
  | cons e es =>
    have htext : entriesText (e :: es) ++ '}' :: rest =
        ' ' :: (e.text ++ (afterCommas Entry.text es ++ ' ' :: '}' :: rest)) := by
      simp [entriesText]
    have hends : NameEnds (':' :: ' ' :: (e.value.text ++
        (afterCommas Entry.text es ++ ' ' :: '}' :: rest))) :=
      nameEnds_colon _
    have hbegins := (h e List.mem_cons_self).1.begins _ hends
    rw [htext]
    refine Reads.blank ((reads_eat_of_ne ?_).then ?_)
    · rw [Entry.text, List.append_assoc]
      exact hbegins.ne (by decide)
    · refine (reads_entries h levels rest).andThen
        (fun _ => (persists_expect _ _).bind fun _ => persists_pure _) ?_
      exact (reads_expect (starts_mark (c := '}') rfl rest).blank _).then reads_pure

/-- Maps are read back. -/
theorem legible_mapOf {entries : List Entry} (h : ∀ m ∈ entries, m.key.Legible ∧ m.value.Legible) :
    (Expr.mapOf entries).Legible := by
  refine legible_of_word "map" (fun rest => ' ' :: '{' :: (entriesText entries ++ '}' :: rest)) id
    (by decide) (fun rest => text_mapOf_entries entries rest) (fun _ => breaks_cons (by decide) _)
    fun levels rest hstarts => ?_
  refine reads_current fun token _ htoken => reads_following.then ?_
  rw [htoken, hstarts.text, hstarts.rest, nextKind_blank, (starts_mark (c := '{') rfl _).kind,
    Expr.reread, Expr.rereadAt, Entry.rereadAll_eq]
  refine (reads_mapConstructor h hstarts levels).congr ?_
  simp only [Expr.nesting]
  omega

/-! ### Arrays -/

/-- Arrays in braces are read back. -/
theorem legible_curlyArray (h : e.Legible) : (Expr.curlyArray e).Legible := by
  refine legible_of_word "array"
    (fun rest => ' ' :: '{' :: ' ' :: (e.render.toList ++ ' ' :: '}' :: rest)) id
    (by decide) (fun rest => Expr.text_curlyArray rest e) (fun _ => breaks_cons (by decide) _)
    fun levels rest hstarts => ?_
  refine reads_current fun token _ htoken => reads_following.then ?_
  rw [htoken, hstarts.text, hstarts.rest, nextKind_blank, (starts_mark (c := '{') rfl _).kind]
  refine Reads.congr ?_ (show e.nesting 0 ≤ levels ↔ _ by simp only [Expr.nesting]; omega)
  refine reads_advance fun _ _ _ => ?_
  rw [hstarts.rest]
  refine reads_advance fun _ _ _ => ?_
  rw [(starts_mark (c := '{') rfl _).blank.rest]
  exact (reads_block h levels rest).andThen (fun _ => persists_pure _) reads_pure

private theorem reads_squareArray {es : List Expr} (h : ∀ m ∈ es, m.Legible) (levels : Nat)
    (rest : List Char) :
    Reads (Expr.nestingAll es ≤ levels) (squareArray (operandAt levels))
      ((Expr.squareArray es).text ++ rest) (.squareArray (es.map Expr.reread)) rest := by
  cases es with
  | nil =>
    have htext : (Expr.squareArray []).text ++ rest = '[' :: ']' :: rest := by
      change ("[" ++ commaSeparated [] ++ "]").toList ++ rest = _
      simp [commaSeparated]
    rw [htext]
    refine Reads.congr ?_ (iff_true_intro (Nat.zero_le levels)).symm
    refine reads_advance fun _ _ _ => ?_
    rw [(starts_mark (c := '[') rfl _).rest]
    exact (reads_eat (starts_mark rfl rest)).then reads_pure
  | cons e es =>
    have hclose := starts_mark (c := ']') rfl rest
    have hends : NameEnds (']' :: rest) := nameEnds_of_kind (by simp) rest
    have hbegins := (h e List.mem_cons_self).begins _ (nameEnds_afterCommas Expr.text es hends)
    rw [Expr.text_squareArray]
    refine reads_advance fun _ _ _ => ?_
    rw [(starts_mark (c := '[') rfl _).rest]
    refine (reads_eat_of_ne (hbegins.ne (by decide))).then ?_
    refine ((reads_elements h hends (by rw [hclose.kind]; decide) levels).andThen
      (fun _ => (persists_expect _ _).bind fun _ => persists_pure _) ?_).congr Expr.nestingAll_le.symm
    exact (reads_expect hclose _).then reads_pure

/-- Arrays in brackets are read back. -/
theorem legible_squareArray {es : List Expr} (h : ∀ m ∈ es, m.Legible) :
    (Expr.squareArray es).Legible := by
  have htext (rest : List Char) : ∃ inner, (Expr.squareArray es).text ++ rest = '[' :: inner := by
    cases es with
    | nil =>
      change ∃ inner, ("[" ++ commaSeparated [] ++ "]").toList ++ rest = _
      exact ⟨']' :: rest, by simp [commaSeparated]⟩
    | cons e es => exact ⟨_, Expr.text_squareArray rest e es⟩
  refine legible_of_opens (Or.inl id) (fun rest _ => ?_) (opens_of_primary fun levels rest _ => ?_)
  · obtain ⟨inner, hinner⟩ := htext rest
    rw [hinner]
    exact begins_of_starts (starts_mark (c := '[') rfl inner) (by simp) (by decide)
  · have hread := reads_squareArray h levels rest
    obtain ⟨inner, hinner⟩ := htext rest
    rw [Expr.levels_of_not_sequence id, Expr.reread, Expr.rereadAt, Expr.rereadAll_eq]
    rw [hinner] at hread ⊢
    refine reads_current fun t hkind _ => ?_
    rw [hkind, (starts_mark (c := '[') rfl inner).kind]
    refine hread.congr ?_
    simp only [Expr.nesting]
    omega

end TreeQuery.Parser
