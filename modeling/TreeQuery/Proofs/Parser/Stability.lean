import TreeQuery.Proofs.Parser.Literals
import TreeQuery.Proofs.Parser.Paths
import TreeQuery.Proofs.Parser.RoundTrip

/-!
# Canonical text is stable

An expression whose parts can be read back where they stand is read from its canonical text without
errors, unless it is nested too deep, and what is read has the same canonical text.
-/

namespace TreeQuery

open TreeQuery.Parser

namespace Expr

/-- Whether an expression can be read back where it stands, literals included, the expressions inside
it apart. -/
def Rereadable : Expr → Prop
  | .literal value => value.Readable
  | e => e.Readable

private theorem Rereadable.readable {e : Expr} (h : e.Rereadable) : e.Readable := by
  cases e with
  | literal _ => trivial
  | _ => exact h

/-! ### How texts start -/

/-- The first token of a text that starts with a word or a dot, but with no path. -/
theorem kind_text_of_startsWithWord {e : Expr} (hformed : e.All Formed) (hpath : ¬ e.IsPath)
    (hword : e.StartsWithWord) {rest : List Char} (hrest : NameEnds rest) :
    nextKind (e.text ++ rest) ∈ [.name, .dot] := by
  induction e using Expr.induction generalizing rest with
  | h e ih =>
  have here := hformed.here
  have hname {name : QName} (h : name.WellFormed) {cs : List Char} (hcs : NameEnds cs) :
      nextKind (name.render.toList ++ cs) ∈ [.name, .dot] := by
    obtain ⟨word, rest', hstarts, -⟩ := exists_starts_render h hcs
    rw [hstarts.kind]
    decide
  have hkeyword {word : String} (h : isSimpleName word.toList = true) {cs : List Char} (hcs : Breaks cs) :
      nextKind (word.toList ++ cs) ∈ [.name, .dot] := by
    rw [(starts_word h hcs).kind]
    decide
  cases e with
  | contextItem =>
    have hdot := starts_dot hrest.breaks
    rw [show contextItem.text ++ rest = '.' :: rest from rfl, hdot.kind]
    decide
  | step _ _ _ | path _ _ => exact absurd trivial hpath
  | call name args =>
    rw [text_call]
    exact hname here.1 (nameEnds_of_kind (by simp) _)
  | functionRef name arity =>
    rw [text_functionRef]
    exact hname here.1 (nameEnds_of_kind (by simp) _)
  | inlineFunction params result body =>
    rw [text_inlineFunction]
    exact hkeyword (by decide) (breaks_cons (by decide) _)
  | mapOf entries =>
    rw [text_mapOf_entries]
    exact hkeyword (by decide) (breaks_cons (by decide) _)
  | curlyArray e =>
    rw [text_curlyArray]
    exact hkeyword (by decide) (breaks_cons (by decide) _)
  | chain base ls =>
    rw [text_chain, (front_of_not_isPath hword.1).1]
    exact ih base (by simp [children]) (hformed.inside base (by simp [children])) hword.1 hword.2
      (nameEnds_links ls hrest)
  | _ => contradiction

private theorem head_parenthesized (text : String) (rest : List Char) :
    ((parenthesized text).toList ++ rest).head? ≠ some '/' := by
  rw [toList_parenthesized]
  simp

private theorem head_literal {value : Literal} (hformed : value.WellFormed) (hreadable : value.Readable)
    {rest : List Char} (hrest : NameEnds rest) :
    ((literal value).text ++ rest).head? ≠ some '/' := by
  cases value with
  | integer i =>
    refine head_ne_slash ?_
    rw [show (literal (.integer i)).text = (Integer.render i).toList from rfl,
      (starts_renderInteger hformed hrest.breaks).kind]
    decide
  | string s =>
    refine head_ne_slash ?_
    rw [show (literal (.string s)).text = (Text.quoted s).toList from rfl,
      (starts_quoted s hrest.breaks).kind]
    decide
  | decimal d =>
    rw [show (literal (.decimal d)).text = (renderDecimalLiteral d).toList from rfl,
      Decimal.toList_renderDecimalLiteral_of_positive hformed, List.append_assoc]
    exact head_ne_of_digits d.wholeDigits_ne_nil (fun c hc => Decimal.isDigit_of_mem_wholeDigits hc)
      (by decide)
  | double x =>
    rw [show (literal (.double x)).text = (Literal.double x).render.toList from rfl, Literal.render]
    split
    · next b hb => exact head_renderLiteral (hreadable b hb).1 rest (by decide)
    · simp [renderDoubleCast]

/-- A text that is no path does not start with a slash. -/
theorem head_text_ne_slash {e : Expr} (hformed : e.All Formed) (hreadable : e.All Rereadable)
    (hpath : ¬ e.IsPath) {rest : List Char} (hrest : NameEnds rest) :
    (e.text ++ rest).head? ≠ some '/' := by
  induction e using Expr.induction generalizing rest with
  | h e ih =>
  have hword (h : e.StartsWithWord) : (e.text ++ rest).head? ≠ some '/' := by
    have hall : ∀ k ∈ [TokenKind.name, .dot], k ≠ .slash ∧ k ≠ .doubleSlash := by decide
    exact head_ne_slash (hall _ (kind_text_of_startsWithWord hformed hpath h hrest))
  cases e with
  | literal value => exact head_literal hformed.here hreadable.here hrest
  | var name => simp [text, operandText, render]
  | contextItem | call _ _ | functionRef _ _ | inlineFunction _ _ _ | mapOf _ | curlyArray _ =>
    exact hword trivial
  | root | rootPath _ | path _ _ | step _ _ _ => exact absurd trivial hpath
  | sequence es =>
    cases es with
    | nil => simp [text, operandText, render]
    | cons e es => exact head_parenthesized _ rest
  | chain base ls =>
    rw [text_chain]
    by_cases hbase : base.IsPath
    · rw [(front_of_isPath hbase).1]
      exact head_parenthesized _ _
    · rw [(front_of_not_isPath hbase).1]
      exact ih base (by simp [children]) (hformed.inside base (by simp [children]))
        (hreadable.inside base (by simp [children])) hbase (nameEnds_links ls hrest)
  | squareArray es => simp [text, operandText, render]
  | lookup key => simp [text_lookup]
  | binary _ _ _ | signed _ _ | forEach _ _ | letIn _ _ | quantified _ _ _ | ifThenElse _ _ _
  | arrowNamed _ _ _ | arrowDynamic _ _ _ | instanceOf _ _ | treatAs _ _ | castableAs _ _
  | castAs _ _ => exact head_parenthesized _ rest

/-! ### Paths and everything else -/

/-- Whatever can be read back is, by itself and as a part of a path. -/
theorem walks_of_readable {e : Expr} (hformed : e.WellFormed) (hreadable : e.All Rereadable) :
    e.Walks := by
  induction e using Expr.induction with
  | h e ih =>
  have hinside : ∀ c ∈ e.children, c.Walks := fun c hc =>
    ih c hc (hformed.inside c hc) (hreadable.inside c hc)
  have here := hreadable.here.readable
  by_cases hpath : e.IsPath
  · cases e with
    | root => exact walks_root
    | rootPath relative => exact walks_rootPath here (hinside relative (by simp [children]))
    | path left right =>
      exact walks_path here (hinside left (by simp [children])) (hinside right (by simp [children]))
    | step axis test predicates =>
      exact walks_step hformed.here here fun c hc => (hinside c hc).legible
    | _ => contradiction
  · refine walks_of_not_path hpath ?_ (fun rest hrest => ?_) fun hword rest hrest => ?_
    · refine legible_of_inside hformed.here here hpath (fun value heq => ?_)
        (fun c hc => (hformed.inside c hc).here) (fun c hc => ?_) fun c hc => (hinside c hc).legible
      · subst heq
        have hvalue : value.WellFormed := hformed.here
        cases value with
        | integer i => exact legible_integer hvalue
        | string s => exact legible_string s
        | decimal d => exact legible_decimal hvalue
        | double x => exact legible_double hreadable.here
      · exact tidy (hformed.inside c hc) ((hreadable.inside c hc).imp fun _ h => h.readable)
    · exact head_text_ne_slash hformed hreadable hpath hrest
    · have hall : ∀ k ∈ [TokenKind.name, .dot], startsPath k = true := by decide
      exact hall _ (kind_text_of_startsWithWord hformed hpath hword hrest)

/-! ### Canonical text -/

/-- The canonical text of an expression that can be read back is read without errors exactly if it is
not nested too deep, and what is read has the same canonical text. -/
theorem canonical_stable {e : Expr} (hformed : e.WellFormed) (hreadable : e.All Rereadable) :
    ((Expr.read e.render).2 = [] ↔ e.nesting 0 ≤ maxNesting) ∧
      ((Expr.read e.render).2 = [] → (Expr.read e.render).1.render = e.render) := by
  have hread := (walks_of_readable hformed hreadable).legible.read
  have hrender := render_reread hformed (hreadable.imp fun _ h => h.readable)
  have hiff : (Expr.read e.render).2 = [] ↔ e.nesting 0 ≤ maxNesting := by
    refine ⟨fun hnil => ?_, fun hle => by rw [hread.1 hle]⟩
    by_contra hlt
    exact hread.2 hlt hnil
  refine ⟨hiff, fun hnil => ?_⟩
  rw [hread.1 (hiff.mp hnil)]
  exact hrender

/-- A mere slash in front of another one is not told from `//`, so such paths are left out above. -/
example : (Expr.read (path .root (.step .child (.named (.simple "a")) [])).render).1.render =
    "/descendant-or-self::node()/child::a" := by
  decide +kernel

end Expr

end TreeQuery
