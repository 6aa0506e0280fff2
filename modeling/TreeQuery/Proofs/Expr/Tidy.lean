import TreeQuery.Proofs.Expr.Commas
import TreeQuery.Proofs.Number.DecimalText
import TreeQuery.Proofs.Number.DoubleText

/-!
# Canonical texts are tidy

No canonical text starts with a colon, so a parenthesis in front of it opens no comment, and every
canonical text closes the brackets that it opens. Next to an operator or among commas it has no comma
of its own either.
-/

namespace TreeQuery

namespace Expr

/-- What can be told of the text of an expression before it is read. -/
structure Tidy (e : Expr) : Prop where
  head : ∀ rest, (e.text ++ rest).head? ≠ some ':'
  headAlone : ∀ rest, (e.render.toList ++ rest).head? ≠ some ':'
  closes : Closes e.text
  inside : ClosesInside e.render.toList

/-- An expression that is no sequence is written as it is rendered. -/
theorem text_eq_render {e : Expr} (h : ¬ e.IsSequence) : e.text = e.render.toList :=
  text_of_not_sequence fun _ _ heq => h (heq ▸ trivial)

private theorem tidy_of_text {e : Expr} (h : e.text = e.render.toList)
    (hhead : ∀ rest, (e.text ++ rest).head? ≠ some ':') (hcloses : Closes e.text) : e.Tidy :=
  ⟨hhead, fun rest => h ▸ hhead rest, hcloses, h ▸ hcloses.inside⟩

private theorem breaks_mark {c : Char} (rest : List Char) (h : c ∈ [' ', ')', ']', '\x7d', ',', '/']) :
    Breaks (c :: rest) := by
  have hall : ∀ c ∈ [' ', ')', ']', '\x7d', ',', '/'],
      isNameChar c = false ∧ c ≠ '.' ∧ c ≠ '\x22' := by decide
  exact breaks_cons (hall c h) rest

/-- The elements behind the first one leave the first one alone. -/
theorem breaks_afterCommas {ι : Type} (text : ι → List Char) (is : List ι) {rest : List Char}
    (h : Breaks rest) : Breaks (afterCommas text is ++ rest) := by
  cases is with
  | nil => exact h
  | cons _ _ => exact breaks_mark _ (by simp)

/-- A list among commas closes what it opens, between brackets around it. -/
theorem commaAhead_list {ι : Type} {text : ι → List Char} {i : ι} {is : List ι}
    (h : ∀ j ∈ i :: is, ClosesInside (text j)) {depth : Nat} {rest : List Char} (hrest : Breaks rest) :
    commaAhead .code (depth + 1) (text i ++ (afterCommas text is ++ rest)) =
      commaAhead .code (depth + 1) rest := by
  rw [List.forall_mem_cons] at h
  rw [h.1 _ _ (breaks_afterCommas _ _ hrest), closesInside_commas h.2 _ _ hrest]

/-- Parentheses close what stands between them. -/
theorem closes_parenthesized {e : Expr} (h : e.Tidy) : Closes (parenthesized e.render).toList := by
  intro depth rest _
  rw [toList_parenthesized, commaAhead_opening rfl (Or.inr (h.headAlone _)),
    h.inside _ _ (breaks_mark _ (by simp)), commaAhead_closing rfl]

/-! ### Arguments, links and bindings -/

private theorem closesInside_arguments {args : List Argument}
    (h : ∀ c ∈ args.flatMap Argument.children, c.Tidy) : ClosesInside (Argument.allText args) := by
  have hargument : ∀ a ∈ args, ClosesInside a.text := by
    intro a ha
    cases a with
    | value e => exact (h e (List.mem_flatMap.mpr ⟨_, ha, List.mem_singleton.mpr rfl⟩)).closes.inside
    | placeholder => exact (closes_ordinaries (by decide)).inside
  cases args with
  | nil => exact fun _ _ _ => rfl
  | cons a as =>
    intro depth rest hrest
    rw [Argument.allText, List.append_assoc, commaAhead_list hargument hrest]

private theorem head_arguments {args : List Argument}
    (h : ∀ c ∈ args.flatMap Argument.children, c.Tidy) (rest : List Char) :
    (Argument.allText args ++ ')' :: rest).head? ≠ some ':' := by
  cases args with
  | nil => simp [Argument.allText]
  | cons a as =>
    rw [Argument.allText, List.append_assoc]
    cases a with
    | value e => exact (h e (by simp [Argument.children])).head _
    | placeholder => simp [Argument.text]

private theorem closes_key {key : LookupKey} (hformed : key.WellFormed)
    (h : ∀ c ∈ key.children, c.Tidy) : Closes key.render.toList := by
  cases key with
  | name text => exact closes_ordinaries (isName_of_isSimpleName hformed).ordinary
  | index i => exact closes_ordinaries (ordinary_renderInteger hformed)
  | computed e => exact closes_parenthesized (h e (List.mem_singleton.mpr rfl))
  | all => exact closes_ordinaries (by decide)

private theorem breaks_links (ls : List Link) {rest : List Char} (hrest : Breaks rest) :
    Breaks (ls.flatMap Link.text ++ rest) := by
  cases ls with
  | nil => exact hrest
  | cons l ls => cases l <;> exact breaks_cons (by decide) _

private theorem closes_links {links : List Link} (hformed : ∀ l ∈ links, l.WellFormed)
    (h : ∀ c ∈ links.flatMap Link.children, c.Tidy) : Closes (links.flatMap Link.text) := by
  induction links with
  | nil => exact fun _ _ _ => rfl
  | cons l ls ih =>
    rw [List.forall_mem_cons] at hformed
    rw [List.flatMap_cons, List.forall_mem_append] at h
    intro depth rest hrest
    rw [List.flatMap_cons, List.append_assoc, ← ih hformed.2 h.2 _ _ hrest]
    have hrest' := breaks_links ls hrest
    generalize ls.flatMap Link.text ++ rest = after at hrest' ⊢
    cases l with
    | predicate e =>
      have he := h.1 e (List.mem_singleton.mpr rfl)
      rw [Link.text, List.cons_append, List.append_assoc, List.singleton_append,
        commaAhead_opening rfl (Or.inl (by decide)), he.inside _ _ (breaks_mark _ (by simp)),
        commaAhead_closing rfl]
    | call args =>
      rw [Link.text, List.cons_append, List.append_assoc, List.singleton_append,
        commaAhead_opening rfl (Or.inr (head_arguments h.1 _)),
        closesInside_arguments h.1 _ _ (breaks_mark _ (by simp)), commaAhead_closing rfl]
    | lookup key =>
      rw [Link.text, List.cons_append, commaAhead_ordinary (by decide),
        closes_key hformed.1 h.1 _ _ hrest']

private theorem closes_binding {word : String} {b : Binding} (hword : ∀ c ∈ word.toList, IsOrdinary c)
    (hname : b.name.WellFormed) (hvalue : b.value.Tidy) : Closes (b.text word) := by
  intro depth rest hrest
  rw [Binding.text, List.cons_append, commaAhead_ordinary (by decide), List.append_assoc,
    commaAhead_ordinaries hname.ordinary, List.cons_append, commaAhead_ordinary (by decide),
    List.append_assoc, commaAhead_ordinaries hword, List.cons_append,
    commaAhead_ordinary (by decide), hvalue.closes _ _ hrest]

private theorem closes_asText {type : Option SequenceType} (hformed : ∀ t, type = some t → t.WellFormed)
    (hreadable : ∀ t, type = some t → t.Readable) : Closes (asText type) := by
  cases type with
  | none => exact fun _ _ _ => rfl
  | some t =>
    exact @Closes.ordinaries_append [' ', 'a', 's', ' '] _ (by decide)
      (SequenceType.closes_render (hformed t rfl) (hreadable t rfl))

private theorem closes_param {p : Param} (hformed : p.WellFormed)
    (hreadable : ∀ t, p.type = some t → t.Readable) : Closes p.render.toList := by
  rw [p.toList_render]
  exact @Closes.ordinaries_append ['$'] _ (by decide)
    (Closes.ordinaries_append hformed.name.ordinary (closes_asText hformed.type hreadable))

/-! ### Forms -/

/-- A text that starts with a parenthesis. -/
theorem tidy_of_parenthesis {e : Expr} {inner : List Char → List Char} (h : ¬ e.IsSequence)
    (htext : ∀ rest, e.text ++ rest = '(' :: inner rest)
    (hhead : ∀ rest, (inner rest).head? ≠ some ':')
    (hinner : ∀ depth rest, commaAhead .code (depth + 1) (inner rest) = commaAhead .code depth rest) :
    e.Tidy := by
  refine tidy_of_text (text_eq_render h) (fun rest => ?_) fun depth rest _ => ?_
  · rw [htext]
    simp
  · rw [htext, commaAhead_opening rfl (Or.inr (hhead rest)), hinner]

/-- A text that starts with a name. -/
theorem tidy_of_name {e : Expr} {name : List Char} {inner : List Char → List Char}
    (h : ¬ e.IsSequence) (htext : ∀ rest, e.text ++ rest = name ++ inner rest)
    (hname : ∀ c ∈ name, IsOrdinary c) (hhead : ∀ rest, (name ++ rest).head? ≠ some ':')
    (hinner : ∀ depth rest, Breaks rest →
      commaAhead .code depth (inner rest) = commaAhead .code depth rest) : e.Tidy := by
  refine tidy_of_text (text_eq_render h) (fun rest => ?_) fun depth rest hrest => ?_
  · rw [htext]
    exact hhead _
  · rw [htext, commaAhead_ordinaries hname, hinner _ _ hrest]

/-- A text that starts with a simple name, such as a keyword or the name of an axis. -/
theorem tidy_of_word {e : Expr} {word : String} {inner : List Char → List Char} (h : ¬ e.IsSequence)
    (htext : ∀ rest, e.text ++ rest = word.toList ++ inner rest)
    (hword : isSimpleName word.toList = true)
    (hinner : ∀ depth rest, Breaks rest →
      commaAhead .code depth (inner rest) = commaAhead .code depth rest) : e.Tidy :=
  have hname := isName_of_isSimpleName hword
  tidy_of_name h htext hname.ordinary (fun _ => hname.head_ne) hinner

/-- A text that starts with a mark, which is no bracket. -/
theorem tidy_of_mark {e : Expr} {mark : Char} {inner : List Char → List Char} (h : ¬ e.IsSequence)
    (htext : ∀ rest, e.text ++ rest = mark :: inner rest) (hmark : IsOrdinary mark) (hcolon : mark ≠ ':')
    (hinner : ∀ depth rest, Breaks rest →
      commaAhead .code depth (inner rest) = commaAhead .code depth rest) : e.Tidy :=
  tidy_of_name h htext (List.forall_mem_singleton.mpr hmark)
    (fun _ hhead => hcolon (Option.some.inj hhead)) hinner

private theorem tidy_infix {e l : Expr} {symbol right : List Char} (h : ¬ e.IsSequence)
    (htext : ∀ rest, e.text ++ rest =
      '(' :: (l.text ++ ' ' :: (symbol ++ ' ' :: (right ++ ')' :: rest))))
    (hl : l.Tidy) (hsymbol : ∀ c ∈ symbol, IsOrdinary c) (hright : Closes right) : e.Tidy := by
  refine tidy_of_parenthesis h htext (fun rest => hl.head _) fun depth rest => ?_
  rw [hl.closes _ _ (breaks_mark _ (by simp)), commaAhead_ordinary (by decide),
    commaAhead_ordinaries hsymbol, commaAhead_ordinary (by decide),
    hright _ _ (breaks_mark _ (by simp)), commaAhead_closing rfl]

private theorem ordinary_symbol (op : BinaryOp) : ∀ c ∈ op.symbol.toList, IsOrdinary c := by
  cases op with
  | arithmetic op => cases op <;> decide
  | comparison op =>
    cases op with
    | value r | general r => cases r <;> decide
    | node r => cases r <;> decide
  | nodes op => cases op <;> decide
  | and | or | concat | range | simpleMap => decide

private theorem tidy_sequence {es : List Expr} (h : ∀ e ∈ es, e.Tidy) : (sequence es).Tidy := by
  cases es with
  | nil =>
    refine tidy_of_text rfl (fun rest => ?_) ?_
    · exact (by decide : some '(' ≠ some ':')
    · have hbrackets : Closes ('(' :: ([] ++ [')'])) :=
        Closes.brackets rfl rfl (Or.inr (by decide)) (breaks_mark _ (by simp)) fun _ _ _ => rfl
      exact hbrackets
  | cons e es =>
    have hall : ∀ c ∈ e :: es, ClosesInside c.text := fun c hc => (h c hc).closes.inside
    have he := h e List.mem_cons_self
    have halone : (sequence (e :: es)).render.toList = e.text ++ afterCommas text es :=
      toList_renderOperands e es
    refine ⟨fun rest => ?_, fun rest => ?_, fun depth rest hrest => ?_, fun depth rest hrest => ?_⟩
    · rw [text_sequence]
      simp
    · rw [halone, List.append_assoc]
      exact he.head _
    · rw [text_sequence, commaAhead_opening rfl (Or.inr (he.head _)),
        commaAhead_list hall (breaks_mark _ (by simp)), commaAhead_closing rfl]
    · rw [halone, List.append_assoc, commaAhead_list hall hrest]

/-- A text that starts with a keyword in parentheses, with bindings behind it. -/
theorem tidy_bindings {e body : Expr} {keyword last join : String} {b : Binding} {bs : List Binding}
    (h : ¬ e.IsSequence)
    (htext : ∀ rest, e.text ++ rest = '(' :: (keyword.toList ++ ' ' :: (b.text join ++
      (afterCommas (Binding.text join) bs ++ ' ' :: (last.toList ++ ' ' :: (body.text ++ ')' :: rest))))))
    (hkeyword : isSimpleName keyword.toList = true) (hjoin : ∀ c ∈ join.toList, IsOrdinary c)
    (hlast : ∀ c ∈ last.toList, IsOrdinary c) (hnames : ∀ b' ∈ b :: bs, b'.name.WellFormed)
    (hvalues : ∀ b' ∈ b :: bs, b'.value.Tidy) (hbody : body.Tidy) : e.Tidy := by
  have hname := isName_of_isSimpleName hkeyword
  have hbindings : ∀ b' ∈ b :: bs, ClosesInside (b'.text join) := fun b' hb' =>
    (closes_binding hjoin (hnames b' hb') (hvalues b' hb')).inside
  refine tidy_of_parenthesis h htext (fun rest => hname.head_ne) fun depth rest => ?_
  rw [commaAhead_ordinaries hname.ordinary, commaAhead_ordinary (by decide),
    commaAhead_list hbindings (breaks_mark _ (by simp)),
    commaAhead_ordinary (by decide), commaAhead_ordinaries hlast, commaAhead_ordinary (by decide),
    hbody.closes _ _ (breaks_mark _ (by simp)), commaAhead_closing rfl]

private theorem closes_base {base : Expr} (h : base.Tidy) :
    Closes base.front ∧ ∀ rest, (base.front ++ rest).head? ≠ some ':' := by
  have hparen : Closes (parenthesized base.render).toList ∧
      ∀ rest, ((parenthesized base.render).toList ++ rest).head? ≠ some ':' := by
    refine ⟨closes_parenthesized h, fun rest => ?_⟩
    rw [toList_parenthesized]
    simp
  cases base with
  | path _ _ | root | rootPath _ | step _ _ _ => exact hparen
  | _ => exact ⟨h.closes, h.head⟩

private theorem closes_target {target : Expr} (h : target.Tidy) : Closes target.target := by
  cases target with
  | var _ => exact h.closes
  | _ => exact closes_parenthesized h

/-! ### Literals -/

/-- The characters that numerals are made of. -/
def IsNumeric (c : Char) : Prop := Text.isDigit c = true ∨ c ∈ ['.', '-', 'e']

private theorem IsNumeric.ordinary {c : Char} (h : IsNumeric c) : IsOrdinary c ∧ c ≠ ':' := by
  rcases h with h | h
  · refine ⟨isOrdinary_of_isNameChar (isNameChar_of_isDigit h), ?_⟩
    rintro rfl
    exact absurd h (by decide)
  · have hall : ∀ c ∈ ['.', '-', 'e'], IsOrdinary c ∧ c ≠ ':' := by decide
    exact hall c h

private theorem numeric_of_isDigit {ds : List Char} (h : ∀ c ∈ ds, Text.isDigit c = true) :
    ∀ c ∈ ds, IsNumeric c := fun c hc => Or.inl (h c hc)

private theorem numeric_minus {negative : Bool} :
    ∀ c ∈ (if negative then ['-'] else []), IsNumeric c := by
  cases negative with
  | true => exact List.forall_mem_singleton.mpr (Or.inr (by decide))
  | false => exact List.forall_mem_nil _

/-- A sign, digits, a point and digits. -/
theorem numeric_renderDecimalLiteral (d : Decimal) :
    ∀ c ∈ (renderDecimalLiteral d).toList, IsNumeric c := by
  have hdot : IsNumeric '.' := Or.inr (by decide)
  have hwhole := numeric_of_isDigit fun c hc => Decimal.isDigit_of_mem_wholeDigits (d := d) hc
  have hplaces := numeric_of_isDigit fun c hc => Decimal.isDigit_of_mem_literalPlaces (d := d) hc
  rw [Decimal.toList_renderDecimalLiteral]
  exact List.forall_mem_append.mpr ⟨numeric_minus, List.forall_mem_append.mpr
    ⟨hwhole, List.forall_mem_cons.mpr ⟨hdot, hplaces⟩⟩⟩

/-- A sign, digits, maybe a point and digits, and an exponent. -/
theorem numeric_renderLiteral (b : Binary) : ∀ c ∈ (renderLiteral b).toList, IsNumeric c := by
  have hmark : IsNumeric 'e' := Or.inr (by decide)
  obtain ⟨whole, point, sign, ds, hparts, htext⟩ := exists_renderLiteral b
  have hpoint : ∀ c ∈ point, IsNumeric c := by
    rcases hparts.point with rfl | ⟨places, rfl, hplaces⟩
    · exact List.forall_mem_nil _
    · exact List.forall_mem_cons.mpr ⟨Or.inr (by decide), numeric_of_isDigit hplaces⟩
  have hsign : ∀ c ∈ sign, IsNumeric c := by
    rcases hparts.sign with rfl | rfl
    · exact List.forall_mem_nil _
    · exact List.forall_mem_singleton.mpr (Or.inr (by decide))
  rw [htext]
  simp only [List.forall_mem_append, List.forall_mem_cons]
  exact ⟨numeric_minus, numeric_of_isDigit hparts.isDigit_whole, hpoint, hmark, hsign,
    numeric_of_isDigit hparts.isDigit_digits⟩

private theorem renderLiteral_ne_nil (b : Binary) : (renderLiteral b).toList ≠ [] := by
  obtain ⟨whole, point, sign, ds, -, htext⟩ := exists_renderLiteral b
  rw [htext]
  simp

/-- A numeral does not start with a colon, and there is nothing in it to close. -/
theorem tidy_of_numeric {e : Expr} (h : ¬ e.IsSequence) {cs : List Char} (htext : e.render.toList = cs)
    (hne : cs ≠ []) (hall : ∀ c ∈ cs, IsNumeric c) : e.Tidy := by
  have htext' := (text_eq_render h).trans htext
  refine tidy_of_text (text_eq_render h) (fun rest => ?_) ?_
  · obtain ⟨c, ds, rfl⟩ := List.exists_cons_of_ne_nil hne
    rw [htext']
    exact fun hhead => (hall c (by simp)).ordinary.2 (Option.some.inj hhead)
  · rw [htext']
    exact closes_ordinaries fun c hc => (hall c hc).ordinary.1

private theorem closes_quoted (s : String) : Closes (Text.quoted s).toList := by
  intro depth rest hrest
  have hquote : rest.head? ≠ some '\x22' := fun h => (hrest _ h).2.2 rfl
  rw [Text.quoted, String.toList_ofList, Text.quote, List.cons_append, List.cons_append,
    List.append_assoc, List.singleton_append, commaAhead_cons (Or.inl (by decide))]
  exact commaAhead_quoted hquote

/-- A literal that is well formed is tidy. -/
theorem tidy_literal {value : Literal} (h : value.WellFormed) : (literal value).Tidy := by
  cases value with
  | integer i =>
    exact tidy_of_numeric id (toList_renderInteger h) Nat.toDigits_ne_nil
      (numeric_of_isDigit fun c hc => isDigit_of_mem_toDigits hc)
  | decimal d =>
    refine tidy_of_numeric id rfl ?_ (numeric_renderDecimalLiteral d)
    change (renderDecimalLiteral d).toList ≠ []
    rw [Decimal.toList_renderDecimalLiteral]
    simp
  | double x =>
    cases hx : Binary.ofFloat? x with
    | some b =>
      have htext : (literal (.double x)).render.toList = (renderLiteral b).toList := by
        simp only [render, Literal.render, hx]
      exact tidy_of_numeric id htext (renderLiteral_ne_nil b) (numeric_renderLiteral b)
    | none =>
      have htext : ∀ rest, (literal (.double x)).text ++ rest =
          '(' :: ((Text.quoted (renderDouble x)).toList ++
            (" cast as xs:double".toList ++ ')' :: rest)) := by
        intro rest
        have hrender : (literal (.double x)).render = renderDoubleCast (renderDouble x) := by
          simp only [render, Literal.render, hx]
        rw [text_eq_render id, hrender, renderDoubleCast]
        simp [AtomicType.name, AtomicType.localName]
      refine tidy_of_parenthesis id htext (fun rest => ?_) fun depth rest => ?_
      · rw [Text.quoted, String.toList_ofList, Text.quote]
        simp
      · have hbreaks : Breaks (" cast as xs:double".toList ++ ')' :: rest) :=
          breaks_cons (c := ' ') (by decide) _
        rw [closes_quoted _ _ _ hbreaks, commaAhead_ordinaries (by decide), commaAhead_closing rfl]
  | string s =>
    refine tidy_of_text rfl (fun rest => ?_) (closes_quoted s)
    change ((Text.quoted s).toList ++ rest).head? ≠ some ':'
    rw [Text.quoted, String.toList_ofList, Text.quote]
    simp

/-! ### Every expression -/

private theorem NodeTest.closes_render {test : NodeTest} (hformed : test.WellFormed)
    (hreadable : test.Readable) : Closes test.render.toList := by
  cases test with
  | named n => exact closes_ordinaries (QName.WellFormed.ordinary hformed)
  | anyName => exact closes_ordinaries (by decide)
  | anyQualifier l =>
    have hname := (isName_of_isSimpleName (show isSimpleName l.toList = true from hformed)).ordinary
    have htext : (NodeTest.anyQualifier l).render.toList = '*' :: ':' :: l.toList := by
      simp [NodeTest.render]
    rw [htext]
    exact closes_ordinaries
      (List.forall_mem_cons.mpr ⟨by decide, List.forall_mem_cons.mpr ⟨by decide, hname⟩⟩)
  | anyLocal q =>
    have hname := (isName_of_isSimpleName (show isSimpleName q.toList = true from hformed)).ordinary
    have htext : (NodeTest.anyLocal q).render.toList = q.toList ++ [':', '*'] := by
      simp [NodeTest.render]
    rw [htext]
    exact closes_ordinaries (List.forall_mem_append.mpr ⟨hname, by decide⟩)
  | kind test => exact KindTest.closes_render hformed hreadable

private theorem SingleType.closes_render (type : SingleType) : Closes type.render.toList := by
  obtain ⟨type, optional⟩ := type
  cases optional <;> exact closes_ordinaries (by cases type <;> decide)

private theorem closes_predicates {es : List Expr} (h : ∀ e ∈ es, e.Tidy) :
    Closes (predicatesText es) := by
  induction es with
  | nil => exact fun _ _ _ => rfl
  | cons e es ih =>
    rw [List.forall_mem_cons] at h
    intro depth rest hrest
    rw [predicatesText_cons, commaAhead_opening rfl (Or.inl (by decide)), h.1.inside _ _ (breaks_mark _ (by simp)),
      commaAhead_closing rfl, ih h.2 _ _ hrest]

private theorem closesInside_params {params : List Param} (hformed : ∀ p ∈ params, p.WellFormed)
    (hreadable : ∀ p ∈ params, ∀ t, p.type = some t → t.Readable) :
    ClosesInside (commaSeparated (params.map Param.render)).toList := by
  cases params with
  | nil => exact fun _ _ _ => rfl
  | cons p ps =>
    have hparam : ∀ p' ∈ p :: ps, ClosesInside p'.render.toList := fun p' hp' =>
      (closes_param (hformed p' hp') (hreadable p' hp')).inside
    intro depth rest hrest
    rw [toList_commaSeparated, List.append_assoc, commaAhead_list hparam hrest]

private theorem head_params (params : List Param) (rest : List Char) :
    ((commaSeparated (params.map Param.render)).toList ++ ')' :: rest).head? ≠ some ':' := by
  cases params with
  | nil => exact (by decide : some ')' ≠ some ':')
  | cons p ps =>
    rw [toList_commaSeparated, p.toList_render]
    simp

private theorem closes_entry {e : Entry} (hkey : e.key.Tidy) (hvalue : e.value.Tidy) :
    Closes e.text := by
  intro depth rest hrest
  rw [Entry.text, List.append_assoc, List.cons_append, List.cons_append,
    hkey.closes _ _ (breaks_cons (by decide) _), commaAhead_ordinary (by decide),
    commaAhead_ordinary (by decide), hvalue.closes _ _ hrest]

private theorem breaks_predicates (ps : List Expr) {rest : List Char} (hrest : Breaks rest) :
    Breaks (predicatesText ps ++ rest) := by
  cases ps with
  | nil => exact hrest
  | cons p ps => exact breaks_cons (by decide) _

private theorem tidy_var {name : QName} (hname : name.WellFormed) : (var name).Tidy := by
  refine @tidy_of_mark _ '$' (name.render.toList ++ ·) id (fun rest => ?_) (by decide) (by decide)
    fun depth rest _ => ?_
  · rw [text_eq_render id]
    simp [render]
  · rw [commaAhead_ordinaries hname.ordinary]

private theorem tidy_signed {sign : Sign} {e : Expr} (he : e.Tidy) : (signed sign e).Tidy := by
  have hsign : ∀ c ∈ sign.symbol.toList, IsOrdinary c := by cases sign <;> decide
  refine tidy_of_parenthesis id (fun rest => text_signed rest sign e) (fun rest => ?_)
    fun depth rest => ?_
  · cases sign with
    | minus => exact (by decide : some '-' ≠ some ':')
    | plus => exact (by decide : some '+' ≠ some ':')
  · rw [commaAhead_ordinaries hsign, he.closes _ _ (breaks_mark _ (by simp)), commaAhead_closing rfl]

private theorem tidy_path {l r : Expr} (hl : l.Tidy) (hr : r.Tidy) : (path l r).Tidy := by
  refine tidy_of_text (text_eq_render id) (fun rest => ?_) fun depth rest hrest => ?_
  · rw [text_path]
    exact hl.head _
  · rw [text_path, hl.closes _ _ (breaks_mark _ (by simp)), commaAhead_ordinary (by decide),
      hr.closes _ _ hrest]

private theorem tidy_step {axis : Axis} {test : NodeTest} {ps : List Expr} (hformed : test.WellFormed)
    (hreadable : test.Readable) (h : ∀ p ∈ ps, p.Tidy) : (step axis test ps).Tidy := by
  have haxis : isSimpleName axis.name.toList = true := by cases axis <;> decide
  refine tidy_of_word id (fun rest => text_step rest axis test ps) haxis fun depth rest hrest => ?_
  rw [commaAhead_ordinary (by decide), commaAhead_ordinary (by decide),
    NodeTest.closes_render hformed hreadable _ _ (breaks_predicates ps hrest),
    closes_predicates h _ _ hrest]

private theorem tidy_chain {base : Expr} {ls : List Link} (hbase : base.Tidy)
    (hformed : ∀ l ∈ ls, l.WellFormed) (h : ∀ c ∈ ls.flatMap Link.children, c.Tidy) :
    (chain base ls).Tidy := by
  obtain ⟨hcloses, hhead⟩ := closes_base hbase
  refine tidy_of_text (text_eq_render id) (fun rest => ?_) fun depth rest hrest => ?_
  · rw [text_chain]
    exact hhead _
  · rw [text_chain, hcloses _ _ (breaks_links ls hrest), closes_links hformed h _ _ hrest]

/-- A call of a name that is well formed is tidy if all in its arguments is. -/
theorem tidy_call {name : QName} {args : List Argument} (hname : name.WellFormed)
    (h : ∀ c ∈ args.flatMap Argument.children, c.Tidy) : (call name args).Tidy := by
  refine tidy_of_name id (fun rest => text_call rest name args) hname.ordinary hname.head_ne
    fun depth rest _ => ?_
  rw [commaAhead_opening rfl (Or.inr (head_arguments h rest)),
    closesInside_arguments h _ _ (breaks_mark _ (by simp)), commaAhead_closing rfl]

private theorem tidy_functionRef {name : QName} (arity : Nat) (hname : name.WellFormed) :
    (functionRef name arity).Tidy := by
  refine tidy_of_name id (fun rest => text_functionRef rest name arity) hname.ordinary hname.head_ne
    fun depth rest _ => ?_
  rw [commaAhead_ordinary (by decide), Nat.toString_eq_ofList_toDigits, String.toList_ofList,
    commaAhead_ordinaries (ordinary_toDigits arity)]

private theorem tidy_inlineFunction {params : List Param} {result : Option SequenceType} {body : Expr}
    (hparams : ∀ p ∈ params, p.WellFormed)
    (hparams' : ∀ p ∈ params, ∀ t, p.type = some t → t.Readable)
    (hresult : ∀ t, result = some t → t.WellFormed) (hresult' : ∀ t, result = some t → t.Readable)
    (hbody : body.Tidy) : (inlineFunction params result body).Tidy := by
  refine tidy_of_word id (fun rest => text_inlineFunction rest params result body) (by decide)
    fun depth rest _ => ?_
  rw [commaAhead_opening rfl (Or.inr (head_params params _)),
    closesInside_params hparams hparams' _ _ (breaks_mark _ (by simp)), commaAhead_closing rfl,
    closes_asText hresult hresult' _ _ (breaks_mark _ (by simp)), commaAhead_ordinary (by decide),
    commaAhead_opening rfl (Or.inl (by decide)), commaAhead_ordinary (by decide),
    hbody.inside _ _ (breaks_mark _ (by simp)), commaAhead_ordinary (by decide),
    commaAhead_closing rfl]

private theorem tidy_ifThenElse {c t f : Expr} (hc : c.Tidy) (ht : t.Tidy) (hf : f.Tidy) :
    (ifThenElse c t f).Tidy := by
  refine tidy_of_parenthesis id (fun rest => text_ifThenElse rest c t f) (fun rest => ?_)
    fun depth rest => ?_
  · exact (isName_of_isSimpleName (by decide : isSimpleName "if".toList = true)).head_ne
  · rw [commaAhead_ordinaries (by decide), commaAhead_ordinary (by decide),
      commaAhead_opening rfl (Or.inr (hc.headAlone _)), hc.inside _ _ (breaks_mark _ (by simp)),
      commaAhead_closing rfl, commaAhead_ordinary (by decide), commaAhead_ordinaries (by decide),
      commaAhead_ordinary (by decide), ht.closes _ _ (breaks_mark _ (by simp)),
      commaAhead_ordinary (by decide), commaAhead_ordinaries (by decide),
      commaAhead_ordinary (by decide), hf.closes _ _ (breaks_mark _ (by simp)),
      commaAhead_closing rfl]

private theorem tidy_mapOf {es : List Entry} (h : ∀ e ∈ es, e.key.Tidy ∧ e.value.Tidy) :
    (mapOf es).Tidy := by
  cases es with
  | nil =>
    have hbraces : ∀ rest, (mapOf []).text ++ rest = "map".toList ++ ' ' :: '\x7b' :: '\x7d' :: rest := by
      intro rest
      change "map \x7b\x7d".toList ++ rest = _
      simp
    refine tidy_of_word id hbraces (by decide) fun depth rest _ => ?_
    rw [commaAhead_ordinary (by decide), commaAhead_opening rfl (Or.inl (by decide)),
      commaAhead_closing rfl]
  | cons e es =>
    have hentries : ∀ e' ∈ e :: es, ClosesInside e'.text := fun e' he' =>
      (closes_entry (h e' he').1 (h e' he').2).inside
    refine tidy_of_word id (fun rest => text_mapOf rest e es) (by decide) fun depth rest _ => ?_
    rw [commaAhead_ordinary (by decide), commaAhead_opening rfl (Or.inl (by decide)),
      commaAhead_ordinary (by decide), commaAhead_list hentries (breaks_mark _ (by simp)),
      commaAhead_ordinary (by decide), commaAhead_closing rfl]

private theorem tidy_squareArray {es : List Expr} (h : ∀ e ∈ es, e.Tidy) : (squareArray es).Tidy := by
  cases es with
  | nil =>
    have hbrackets : Closes ('[' :: ([] ++ [']'])) :=
      Closes.brackets rfl rfl (Or.inl (by decide)) (breaks_mark _ (by simp)) fun _ _ _ => rfl
    exact tidy_of_text rfl (fun rest => (by decide : some '[' ≠ some ':')) hbrackets
  | cons e es =>
    have hall : ∀ c ∈ e :: es, ClosesInside c.text := fun c hc => (h c hc).closes.inside
    refine tidy_of_text (text_eq_render id) (fun rest => ?_) fun depth rest _ => ?_
    · rw [text_squareArray]
      simp
    · rw [text_squareArray, commaAhead_opening rfl (Or.inl (by decide)),
        commaAhead_list hall (breaks_mark _ (by simp)), commaAhead_closing rfl]

private theorem tidy_curlyArray {e : Expr} (he : e.Tidy) : (curlyArray e).Tidy := by
  refine tidy_of_word id (fun rest => text_curlyArray rest e) (by decide) fun depth rest _ => ?_
  rw [commaAhead_ordinary (by decide), commaAhead_opening rfl (Or.inl (by decide)),
    commaAhead_ordinary (by decide), he.inside _ _ (breaks_mark _ (by simp)),
    commaAhead_ordinary (by decide), commaAhead_closing rfl]

/-- An arrow in parentheses, whatever its target is. -/
theorem tidy_arrow {e base : Expr} {target : List Char} {args : List Argument} (h : ¬ e.IsSequence)
    (htext : ∀ rest, e.text ++ rest =
      '(' :: (base.text ++ ' ' :: '=' :: '>' :: ' ' :: (target ++
        '(' :: (Argument.allText args ++ ')' :: ')' :: rest))))
    (hbase : base.Tidy) (htarget : Closes target)
    (hargs : ∀ c ∈ args.flatMap Argument.children, c.Tidy) : e.Tidy := by
  refine tidy_of_parenthesis h htext (fun rest => hbase.head _) fun depth rest => ?_
  rw [hbase.closes _ _ (breaks_mark _ (by simp)), commaAhead_ordinary (by decide),
    commaAhead_ordinary (by decide), commaAhead_ordinary (by decide),
    commaAhead_ordinary (by decide), htarget _ _ (breaks_cons (by decide) _),
    commaAhead_opening rfl (Or.inr (head_arguments hargs _)),
    closesInside_arguments hargs _ _ (breaks_mark _ (by simp)), commaAhead_closing rfl,
    commaAhead_closing rfl]

/-- Every canonical text is tidy, by induction over the expressions inside. -/
theorem tidy {e : Expr} (hformed : e.All Formed) (hreadable : e.All Readable) : e.Tidy := by
  induction hformed with
  | @intro e here inside ih =>
  have hinside : ∀ c ∈ e.children, c.Tidy := fun c hc => ih c hc (hreadable.inside c hc)
  have hread := hreadable.here
  clear ih inside hreadable
  cases e with
  | literal value => exact tidy_literal here
  | var name => exact tidy_var here
  | contextItem =>
    exact @tidy_of_mark _ '.' id id (fun _ => rfl) (by decide) (by decide) fun _ _ _ => rfl
  | root => exact @tidy_of_mark _ '/' id id (fun _ => rfl) (by decide) (by decide) fun _ _ _ => rfl
  | sequence es => exact tidy_sequence hinside
  | binary op l r =>
    exact tidy_infix id (fun rest => text_binary rest op l r) (hinside l (by simp [children]))
      (ordinary_symbol op) (hinside r (by simp [children])).closes
  | signed sign e => exact tidy_signed (hinside e (by simp [children]))
  | rootPath r =>
    exact tidy_of_mark id (fun rest => text_rootPath rest r) (by decide) (by decide)
      (hinside r (by simp [children])).closes
  | path l r =>
    exact tidy_path (hinside l (by simp [children])) (hinside r (by simp [children]))
  | step axis test ps => exact tidy_step here.1 hread hinside
  | chain base ls =>
    exact tidy_chain (hinside base (by simp [children])) here.2.2
      fun c hc => hinside c (List.mem_cons_of_mem _ hc)
  | call name args => exact tidy_call here.1 hinside
  | functionRef name arity => exact tidy_functionRef arity here.1
  | inlineFunction params result body =>
    exact tidy_inlineFunction here.1 hread.1 here.2 hread.2 (hinside body (by simp [children]))
  | forEach bs body =>
    cases bs with
    | nil => exact absurd rfl here.1
    | cons b bs =>
      exact tidy_bindings id (fun rest => text_forEach rest b bs body) (by decide) (by decide)
        (by decide) here.2
        (fun b' hb' => hinside _ (List.mem_append_left _ (List.mem_map_of_mem hb')))
        (hinside body (by simp [children]))
  | letIn bs body =>
    cases bs with
    | nil => exact absurd rfl here.1
    | cons b bs =>
      exact tidy_bindings id (fun rest => text_letIn rest b bs body) (by decide) (by decide)
        (by decide) here.2
        (fun b' hb' => hinside _ (List.mem_append_left _ (List.mem_map_of_mem hb')))
        (hinside body (by simp [children]))
  | quantified q bs body =>
    cases bs with
    | nil => exact absurd rfl here.1
    | cons b bs =>
      exact tidy_bindings id (fun rest => text_quantified rest q b bs body)
        (by cases q <;> decide) (by decide) (by decide) here.2
        (fun b' hb' => hinside _ (List.mem_append_left _ (List.mem_map_of_mem hb')))
        (hinside body (by simp [children]))
  | ifThenElse c t f =>
    exact tidy_ifThenElse (hinside c (by simp [children])) (hinside t (by simp [children]))
      (hinside f (by simp [children]))
  | mapOf es =>
    exact tidy_mapOf fun e he =>
      ⟨hinside _ (List.mem_flatMap.mpr ⟨e, he, by simp [Entry.children]⟩),
        hinside _ (List.mem_flatMap.mpr ⟨e, he, by simp [Entry.children]⟩)⟩
  | squareArray es => exact tidy_squareArray hinside
  | curlyArray e => exact tidy_curlyArray (hinside e (by simp [children]))
  | arrowNamed base name args =>
    have hname : QName.WellFormed name := here
    exact tidy_arrow id (fun rest => text_arrowNamed rest base name args)
      (hinside base (by simp [children])) (closes_ordinaries hname.ordinary)
      fun c hc => hinside c (List.mem_cons_of_mem _ hc)
  | arrowDynamic base target args =>
    exact tidy_arrow id (fun rest => text_arrowDynamic rest base target args)
      (hinside base (by simp [children])) (closes_target (hinside target (by simp [children])))
      fun c hc => hinside c (List.mem_cons_of_mem _ (List.mem_cons_of_mem _ hc))
  | lookup key =>
    exact tidy_of_mark id (fun rest => text_lookup rest key) (by decide) (by decide)
      (closes_key here hinside)
  | instanceOf e type =>
    exact tidy_infix id (fun rest => toList_infixText rest _ "instance of" _)
      (hinside e (by simp [children])) (by decide) (SequenceType.closes_render here hread.2)
  | treatAs e type =>
    exact tidy_infix id (fun rest => toList_infixText rest _ "treat as" _)
      (hinside e (by simp [children])) (by decide) (SequenceType.closes_render here hread.2)
  | castableAs e type =>
    exact tidy_infix id (fun rest => toList_infixText rest _ "castable as" _)
      (hinside e (by simp [children])) (by decide) (SingleType.closes_render type)
  | castAs e type =>
    exact tidy_infix id (fun rest => toList_infixText rest _ "cast as" _)
      (hinside e (by simp [children])) (by decide) (SingleType.closes_render type)

end Expr

end TreeQuery
