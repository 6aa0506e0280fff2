import TreeQuery.Expr.Canonical

/-!
# Canonical texts as characters

The text of every form of expression, in front of what follows it. `text` is the text of an
expression next to an operator or among commas, where a sequence has parentheses.
-/

namespace TreeQuery

/-- Texts with a comma in front of each. -/
def afterCommas {ι : Type} (text : ι → List Char) (is : List ι) : List Char :=
  is.flatMap fun i => ',' :: ' ' :: text i

/-- Texts with commas between them are the first one and each of the others behind a comma. -/
theorem toList_commaSeparated {ι : Type} (text : ι → String) (i : ι) (is : List ι) :
    (commaSeparated ((i :: is).map text)).toList =
      (text i).toList ++ afterCommas (fun i => (text i).toList) is := by
  induction is generalizing i with
  | nil => simp [commaSeparated, afterCommas]
  | cons j js ih =>
    have hsplit : commaSeparated ((i :: j :: js).map text) =
        text i ++ ", " ++ commaSeparated ((j :: js).map text) := by
      simp [commaSeparated]
    rw [hsplit, String.toList_append, ih, afterCommas, afterCommas]
    simp

/-- The text of an expression next to an operator or among commas. -/
def Expr.text (e : Expr) : List Char := (e.operandText e.render).toList

/-- The text of an expression with links behind it. -/
def Expr.front (e : Expr) : List Char := (e.baseText e.render).toList

/-- The text of the target of an arrow. -/
def Expr.target (e : Expr) : List Char := (e.targetText e.render).toList

/-- The text of a binding, with the word between variable and value. -/
def Binding.text (word : String) (b : Binding) : List Char :=
  '$' :: (b.name.render.toList ++ ' ' :: (word.toList ++ ' ' :: b.value.text))

/-- The text of a map entry. -/
def Entry.text (e : Entry) : List Char := e.key.text ++ ':' :: ' ' :: e.value.text

/-- The text of an argument. -/
def Argument.text : Argument → List Char
  | .value e => e.text
  | .placeholder => ['?']

/-- The text of arguments among commas. -/
def Argument.allText : List Argument → List Char
  | [] => []
  | a :: as => a.text ++ afterCommas Argument.text as

/-- The text of a link. -/
def Link.text : Link → List Char
  | .predicate e => '[' :: (e.render.toList ++ [']'])
  | .call args => '(' :: (Argument.allText args ++ [')'])
  | .lookup key => '?' :: key.render.toList

/-- The text of a type behind `as`, if there is one. -/
def asText : Option SequenceType → List Char
  | none => []
  | some type => ' ' :: 'a' :: 's' :: ' ' :: type.render.toList

/-- A parameter is written with its name and, if it has one, its type. -/
theorem Param.toList_render (p : Param) :
    p.render.toList = '$' :: (p.name.render.toList ++ asText p.type) := by
  obtain ⟨name, type⟩ := p
  cases type <;> simp [Param.render, asText]

/-! ### Lists -/

private theorem Expr.renderOperands_eq (es : List Expr) :
    Expr.renderOperands es = es.map fun e => e.operandText e.render := by
  induction es with
  | nil => rfl
  | cons e es ih => rw [Expr.renderOperands, ih, List.map_cons]

/-- Operands are written with commas between them, sequences among them in parentheses. -/
theorem toList_renderOperands (e : Expr) (es : List Expr) :
    (commaSeparated (Expr.renderOperands (e :: es))).toList = e.text ++ afterCommas Expr.text es := by
  rw [Expr.renderOperands_eq, toList_commaSeparated]
  rfl

private theorem toList_renderPredicates (es : List Expr) :
    (Expr.renderPredicates es).toList = es.flatMap fun e => '[' :: (e.render.toList ++ [']']) := by
  induction es with
  | nil => rfl
  | cons e es ih =>
    rw [Expr.renderPredicates, String.toList_append, ih]
    simp

private theorem toList_renderBindings (word : String) (b : Binding) (bs : List Binding) :
    (commaSeparated (Binding.renderAll word (b :: bs))).toList =
      b.text word ++ afterCommas (Binding.text word) bs := by
  have hmap (bs : List Binding) : Binding.renderAll word bs = bs.map fun b =>
      "$" ++ b.name.render ++ " " ++ word ++ " " ++ b.value.operandText b.value.render := by
    induction bs with
    | nil => rfl
    | cons b bs ih =>
      cases b
      rw [Binding.renderAll, ih, List.map_cons]
  have htext (b : Binding) : ("$" ++ b.name.render ++ " " ++ word ++ " " ++
      b.value.operandText b.value.render).toList = b.text word := by
    simp [Binding.text, Expr.text]
  rw [hmap, toList_commaSeparated, htext]
  simp only [htext]

private theorem toList_renderEntries (e : Entry) (es : List Entry) :
    (commaSeparated (Entry.renderAll (e :: es))).toList = e.text ++ afterCommas Entry.text es := by
  have hmap (es : List Entry) : Entry.renderAll es = es.map fun e =>
      e.key.operandText e.key.render ++ ": " ++ e.value.operandText e.value.render := by
    induction es with
    | nil => rfl
    | cons e es ih =>
      cases e
      rw [Entry.renderAll, ih, List.map_cons]
  have htext (e : Entry) : (e.key.operandText e.key.render ++ ": " ++
      e.value.operandText e.value.render).toList = e.text := by
    simp [Entry.text, Expr.text]
  rw [hmap, toList_commaSeparated, htext]
  simp only [htext]

private theorem toList_renderArguments (as : List Argument) :
    (commaSeparated (Argument.renderAll as)).toList = Argument.allText as := by
  have hmap (as : List Argument) : Argument.renderAll as = as.map fun a =>
      match a with
      | .value e => e.operandText e.render
      | .placeholder => "?" := by
    induction as with
    | nil => rfl
    | cons a as ih => cases a <;> rw [Argument.renderAll, ih, List.map_cons]
  have htext (a : Argument) : (match a with
      | .value e => e.operandText e.render
      | .placeholder => "?").toList = a.text := by
    cases a <;> rfl
  cases as with
  | nil => simp [Argument.renderAll, commaSeparated, Argument.allText]
  | cons a as =>
    rw [hmap, toList_commaSeparated, htext]
    simp only [htext]
    rfl

private theorem toList_renderLinks (ls : List Link) : (Link.renderAll ls).toList =
    ls.flatMap Link.text := by
  induction ls with
  | nil => rfl
  | cons l ls ih =>
    cases l with
    | predicate e =>
      rw [Link.renderAll, String.toList_append, ih, List.flatMap_cons, Link.text]
      simp
    | call args =>
      rw [Link.renderAll, String.toList_append, ih, List.flatMap_cons, Link.text, parenthesized]
      simp [toList_renderArguments]
    | lookup key =>
      rw [Link.renderAll, String.toList_append, ih, List.flatMap_cons, Link.text]
      simp

/-! ### Forms -/

namespace Expr

variable (rest : List Char)

/-- An expression that is no sequence is written as it is rendered. -/
theorem text_of_not_sequence {e : Expr} (h : ∀ c cs, e ≠ .sequence (c :: cs)) :
    e.text = e.render.toList := by
  unfold text operandText
  split
  · exact absurd rfl (h _ _)
  · rfl

theorem toList_parenthesized (text : String) :
    (parenthesized text).toList ++ rest = '(' :: (text.toList ++ ')' :: rest) := by
  simp [parenthesized]

private theorem toList_braced (introduction text : String) :
    (braced introduction text).toList ++ rest =
      introduction.toList ++ ' ' :: '\x7b' :: ' ' :: (text.toList ++ ' ' :: '\x7d' :: rest) := by
  simp [braced]

theorem toList_infixText (left symbol right : String) :
    (infixText left symbol right).toList ++ rest =
      '(' :: (left.toList ++ ' ' :: (symbol.toList ++ ' ' :: (right.toList ++ ')' :: rest))) := by
  simp [infixText, parenthesized]

theorem text_sequence (e : Expr) (es : List Expr) :
    (sequence (e :: es)).text ++ rest =
      '(' :: (e.text ++ (afterCommas text es ++ ')' :: rest)) := by
  change (parenthesized (sequence (e :: es)).render).toList ++ rest = _
  rw [toList_parenthesized, render, toList_renderOperands, List.append_assoc]

theorem text_binary (op : BinaryOp) (l r : Expr) :
    (binary op l r).text ++ rest =
      '(' :: (l.text ++ ' ' :: (op.symbol.toList ++ ' ' :: (r.text ++ ')' :: rest))) :=
  toList_infixText ..

theorem text_signed (sign : Sign) (e : Expr) :
    (signed sign e).text ++ rest = '(' :: (sign.symbol.toList ++ (e.text ++ ')' :: rest)) := by
  change (parenthesized (sign.symbol ++ e.operandText e.render)).toList ++ rest = _
  rw [toList_parenthesized, String.toList_append, List.append_assoc]
  rfl

theorem text_chain (base : Expr) (ls : List Link) :
    (chain base ls).text ++ rest = base.front ++ (ls.flatMap Link.text ++ rest) := by
  change (base.baseText base.render ++ Link.renderAll ls).toList ++ rest = _
  rw [String.toList_append, toList_renderLinks, List.append_assoc]
  rfl

theorem text_call (name : QName) (args : List Argument) :
    (call name args).text ++ rest =
      name.render.toList ++ '(' :: (Argument.allText args ++ ')' :: rest) := by
  change (name.render ++ parenthesized (commaSeparated (Argument.renderAll args))).toList ++ rest = _
  rw [String.toList_append, List.append_assoc, toList_parenthesized, toList_renderArguments]

theorem text_functionRef (name : QName) (arity : Nat) :
    (functionRef name arity).text ++ rest =
      name.render.toList ++ '#' :: ((toString arity).toList ++ rest) := by
  change (name.render ++ "#" ++ toString arity).toList ++ rest = _
  simp

theorem text_forEach (b : Binding) (bs : List Binding) (body : Expr) :
    (forEach (b :: bs) body).text ++ rest =
      '(' :: ("for".toList ++ ' ' :: (b.text "in" ++ (afterCommas (Binding.text "in") bs ++
        ' ' :: ("return".toList ++ ' ' :: (body.text ++ ')' :: rest))))) := by
  change (parenthesized ("for " ++ commaSeparated (Binding.renderAll "in" (b :: bs)) ++ " return " ++
    body.operandText body.render)).toList ++ rest = _
  rw [toList_parenthesized]
  simp only [String.toList_append, toList_renderBindings, List.append_assoc]
  simp [text]

theorem text_letIn (b : Binding) (bs : List Binding) (body : Expr) :
    (letIn (b :: bs) body).text ++ rest =
      '(' :: ("let".toList ++ ' ' :: (b.text ":=" ++ (afterCommas (Binding.text ":=") bs ++
        ' ' :: ("return".toList ++ ' ' :: (body.text ++ ')' :: rest))))) := by
  change (parenthesized ("let " ++ commaSeparated (Binding.renderAll ":=" (b :: bs)) ++ " return " ++
    body.operandText body.render)).toList ++ rest = _
  rw [toList_parenthesized]
  simp only [String.toList_append, toList_renderBindings, List.append_assoc]
  simp [text]

theorem text_quantified (q : Quantifier) (b : Binding) (bs : List Binding) (condition : Expr) :
    (quantified q (b :: bs) condition).text ++ rest =
      '(' :: (q.keyword.toList ++ ' ' :: (b.text "in" ++ (afterCommas (Binding.text "in") bs ++
        ' ' :: ("satisfies".toList ++ ' ' :: (condition.text ++ ')' :: rest))))) := by
  change (parenthesized (q.keyword ++ " " ++ commaSeparated (Binding.renderAll "in" (b :: bs)) ++
    " satisfies " ++ condition.operandText condition.render)).toList ++ rest = _
  rw [toList_parenthesized]
  simp only [String.toList_append, toList_renderBindings, List.append_assoc]
  simp [text]

theorem text_ifThenElse (c t f : Expr) :
    (ifThenElse c t f).text ++ rest =
      '(' :: ("if".toList ++ ' ' :: '(' :: (c.render.toList ++ ')' :: ' ' ::
        ("then".toList ++ ' ' :: (t.text ++ ' ' :: ("else".toList ++ ' ' :: (f.text ++ ')' :: rest)))))) := by
  change (parenthesized ("if " ++ parenthesized c.render ++ " then " ++ t.operandText t.render ++
    " else " ++ f.operandText f.render)).toList ++ rest = _
  rw [toList_parenthesized]
  simp only [String.toList_append, List.append_assoc, toList_parenthesized]
  simp [text]

theorem text_mapOf (e : Entry) (es : List Entry) :
    (mapOf (e :: es)).text ++ rest =
      "map".toList ++ ' ' :: '\x7b' :: ' ' :: (e.text ++ (afterCommas Entry.text es ++
        ' ' :: '\x7d' :: rest)) := by
  change (braced "map" (commaSeparated (Entry.renderAll (e :: es)))).toList ++ rest = _
  rw [toList_braced, toList_renderEntries, List.append_assoc]

theorem text_squareArray (e : Expr) (es : List Expr) :
    (squareArray (e :: es)).text ++ rest =
      '[' :: (e.text ++ (afterCommas text es ++ ']' :: rest)) := by
  change ("[" ++ commaSeparated (renderOperands (e :: es)) ++ "]").toList ++ rest = _
  simp only [String.toList_append, toList_renderOperands, List.append_assoc]
  simp

theorem text_curlyArray (e : Expr) :
    (curlyArray e).text ++ rest =
      "array".toList ++ ' ' :: '\x7b' :: ' ' :: (e.render.toList ++ ' ' :: '\x7d' :: rest) :=
  toList_braced rest "array" e.render

theorem text_inlineFunction (params : List Param) (result : Option SequenceType) (body : Expr) :
    (inlineFunction params result body).text ++ rest =
      "function".toList ++ '(' :: ((commaSeparated (params.map Param.render)).toList ++
        ')' :: (asText result ++
          ' ' :: '\x7b' :: ' ' :: (body.render.toList ++ ' ' :: '\x7d' :: rest))) := by
  change (braced ("function" ++ parenthesized (commaSeparated (params.map Param.render)) ++
      match result with
      | none => ""
      | some type => " as " ++ type.render) body.render).toList ++ rest = _
  rw [toList_braced]
  simp only [String.toList_append, List.append_assoc, toList_parenthesized]
  cases result <;> simp [asText]

theorem text_arrowNamed (base : Expr) (name : QName) (args : List Argument) :
    (arrowNamed base name args).text ++ rest =
      '(' :: (base.text ++ ' ' :: '=' :: '>' :: ' ' :: (name.render.toList ++
        '(' :: (Argument.allText args ++ ')' :: ')' :: rest))) := by
  change (parenthesized (base.operandText base.render ++ " => " ++ name.render ++
    parenthesized (commaSeparated (Argument.renderAll args)))).toList ++ rest = _
  rw [toList_parenthesized]
  simp only [String.toList_append, List.append_assoc, toList_parenthesized, toList_renderArguments]
  simp [text]

theorem text_arrowDynamic (base target : Expr) (args : List Argument) :
    (arrowDynamic base target args).text ++ rest =
      '(' :: (base.text ++ ' ' :: '=' :: '>' :: ' ' :: (target.target ++
        '(' :: (Argument.allText args ++ ')' :: ')' :: rest))) := by
  change (parenthesized (base.operandText base.render ++ " => " ++ target.targetText target.render ++
    parenthesized (commaSeparated (Argument.renderAll args)))).toList ++ rest = _
  rw [toList_parenthesized]
  simp only [String.toList_append, List.append_assoc, toList_parenthesized, toList_renderArguments]
  simp [text, Expr.target]

theorem text_lookup (key : LookupKey) :
    (lookup key).text ++ rest = '?' :: (key.render.toList ++ rest) := by
  change ("?" ++ key.render).toList ++ rest = _
  simp

theorem text_rootPath (e : Expr) : (rootPath e).text ++ rest = '/' :: (e.text ++ rest) := by
  change ("/" ++ e.operandText e.render).toList ++ rest = _
  simp [text]

theorem text_path (l r : Expr) : (path l r).text ++ rest = l.text ++ '/' :: (r.text ++ rest) := by
  change (l.operandText l.render ++ "/" ++ r.operandText r.render).toList ++ rest = _
  simp [text]

/-- The text of predicates, one behind another. -/
def predicatesText (es : List Expr) : List Char :=
  es.flatMap fun e => '[' :: (e.render.toList ++ [']'])

theorem predicatesText_cons (e : Expr) (es : List Expr) :
    predicatesText (e :: es) ++ rest =
      '[' :: (e.render.toList ++ ']' :: (predicatesText es ++ rest)) := by
  simp [predicatesText]

theorem text_step (axis : Axis) (test : NodeTest) (es : List Expr) :
    (step axis test es).text ++ rest =
      axis.name.toList ++ ':' :: ':' :: (test.render.toList ++ (predicatesText es ++ rest)) := by
  change (axis.name ++ "::" ++ test.render ++ renderPredicates es).toList ++ rest = _
  rw [predicatesText, ← toList_renderPredicates]
  simp

end Expr

end TreeQuery
