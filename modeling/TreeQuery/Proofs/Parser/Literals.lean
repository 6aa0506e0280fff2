import TreeQuery.Proofs.Expr.Printed
import TreeQuery.Proofs.Number.DoubleText
import TreeQuery.Proofs.Parser.Atoms

/-!
# Reading numerals with a fraction

A decimal is read as a decimal with the same text. A double is one token with its exponent, and what
that token is read as is left to the double; one that is infinite or no number is a cast of its text.
-/

namespace TreeQuery

/-- The text of a finite double has no sign and is read as that double. -/
def Literal.Readable : Literal → Prop
  | .double value => ∀ b, Binary.ofFloat? value = some b →
      b.negative = false ∧ readNumber? (renderLiteral b).toList = some value
  | _ => True

end TreeQuery

namespace TreeQuery.Parser

variable {rest : List Char}

/-- A text in which a digit comes first does not start with any other mark. -/
theorem head_ne_of_digits {ds cs : List Char} (hne : ds ≠ []) (hds : ∀ c ∈ ds, Text.isDigit c = true)
    {mark : Char} (hmark : Text.isDigit mark = false) : (ds ++ cs).head? ≠ some mark := by
  obtain ⟨d, ds, rfl⟩ := List.exists_cons_of_ne_nil hne
  intro heq
  have hd := hds d List.mem_cons_self
  rw [Option.some.inj heq, hmark] at hd
  contradiction

/-- A double without a sign starts with a digit. -/
theorem head_renderLiteral {b : Binary} (h : b.negative = false) (rest : List Char) {mark : Char}
    (hmark : Text.isDigit mark = false) : ((renderLiteral b).toList ++ rest).head? ≠ some mark := by
  obtain ⟨whole, point, sign, ds, hparts, htext⟩ := exists_renderLiteral b
  rw [htext, h, if_neg (by decide), List.nil_append, List.append_assoc]
  exact head_ne_of_digits hparts.whole_ne_nil hparts.isDigit_whole hmark

/-- There is nothing to be completed in a decimal with digits on each side of its point. -/
theorem completeDecimal_of_digits {whole places : List Char} (hwhole : whole ≠ [])
    (hwholes : ∀ c ∈ whole, Text.isDigit c = true) (hplaces : places ≠ [])
    (hdigits : ∀ c ∈ places, Text.isDigit c = true) :
    completeDecimal (whole ++ '.' :: places) = whole ++ '.' :: places := by
  have hhead : (whole ++ '.' :: places).head? ≠ some '.' :=
    head_ne_of_digits hwhole hwholes (by decide)
  have hlast : (whole ++ '.' :: places).getLast? ≠ some '.' := by
    rw [List.getLast?_append, List.getLast?_cons, List.getLast?_eq_some_getLast hplaces]
    intro heq
    have hpoint := hdigits _ (List.getLast_mem hplaces)
    rw [show places.getLast hplaces = '.' from Option.some.inj heq] at hpoint
    exact absurd hpoint (by decide)
  rw [completeDecimal, if_neg hhead, if_neg hlast]

/-- Decimals without a sign are read back. -/
theorem legible_decimal {d : Decimal} (h : d.negative = false) :
    (Expr.literal (.decimal d)).Legible := by
  have htext (rest : List Char) : (Expr.literal (.decimal d)).text ++ rest =
      d.wholeDigits ++ '.' :: (d.literalPlaces ++ rest) := by
    change (renderDecimalLiteral d).toList ++ rest = _
    rw [Decimal.toList_renderDecimalLiteral_of_positive h]
    simp
  have hwhole : ∀ c ∈ d.wholeDigits, Text.isDigit c = true := fun c hc =>
    Decimal.isDigit_of_mem_wholeDigits hc
  have hplaces : ∀ c ∈ d.literalPlaces, Text.isDigit c = true := fun c hc =>
    Decimal.isDigit_of_mem_literalPlaces hc
  have hstarts (rest : List Char) (hrest : NameEnds rest) :
      Starts ((Expr.literal (.decimal d)).text ++ rest) .decimal
        (String.ofList (d.wholeDigits ++ '.' :: d.literalPlaces)) rest := by
    rw [htext]
    exact starts_point d.wholeDigits_ne_nil hwhole hplaces hrest.breaks
  refine legible_of_token id id hstarts (fun rest _ => ?_) (by decide) fun levels rest _ hstarts => ?_
  · rw [htext]
    exact head_ne_of_digits d.wholeDigits_ne_nil hwhole (by decide)
  · refine Reads.congr ?_ (iff_true_intro (Nat.le_add_left 1 levels)).symm
    obtain ⟨d', hread, -⟩ := Decimal.read?_renderDecimalLiteral h
    have hreread : (Expr.literal (.decimal d)).reread = .literal (.decimal d') := by
      change Expr.literal (.decimal ((Decimal.read? (renderDecimalLiteral d).toList).getD d)) = _
      rw [hread, Option.getD_some]
    refine reads_current fun t hkind _ => ?_
    rw [hkind, hstarts.kind]
    refine reads_advance fun t _ ht => ?_
    rw [hstarts.text] at ht
    rw [hstarts.rest, decimalLiteral, ht, String.toList_ofList,
      completeDecimal_of_digits d.wholeDigits_ne_nil hwhole d.literalPlaces_ne_nil hplaces,
      ← Decimal.toList_renderDecimalLiteral_of_positive h, hread, hreread]
    exact reads_pure

private theorem legible_finite {value : Float} {b : Binary} (hb : Binary.ofFloat? value = some b)
    (hnegative : b.negative = false) (hread : readNumber? (renderLiteral b).toList = some value) :
    (Expr.literal (.double value)).Legible := by
  have hrender : (Expr.literal (.double value)).text = (renderLiteral b).toList := by
    change (Literal.double value).render.toList = _
    rw [Literal.render, hb]
  have hnesting : (Expr.literal (.double value)).nesting 0 = 1 := by
    simp only [Expr.nesting, Literal.nesting, hb]
    rfl
  have hreread : (Expr.literal (.double value)).reread = .literal (.double value) := by
    change (Literal.double value).reread = _
    rw [Literal.reread, hb]
    rfl
  have hstarts (rest : List Char) (hrest : NameEnds rest) :
      Starts ((Expr.literal (.double value)).text ++ rest) .double (renderLiteral b) rest := by
    rw [hrender]
    exact starts_renderLiteral hnegative hrest.breaks
  refine legible_of_token id id hstarts (fun rest _ => ?_) (by decide) fun levels rest _ hstarts => ?_
  · rw [hrender]
    exact head_renderLiteral hnegative rest (by decide)
  · rw [hnesting, hreread]
    refine Reads.congr ?_ (iff_true_intro (Nat.le_add_left 1 levels)).symm
    refine reads_current fun t hkind _ => ?_
    rw [hkind, hstarts.kind]
    refine reads_advance fun t _ ht => ?_
    rw [hstarts.text] at ht
    rw [hstarts.rest, doubleLiteral, ht, hread]
    exact reads_pure

/-- An expression with the text of another one is read as that one is. -/
theorem legible_of_render {e e' : Expr} (hrender : e.render = e'.render)
    (hnesting : e.nesting 0 = e'.nesting 0) (hreread : e.reread = e'.reread) (he : ¬ e.IsSequence)
    (he' : ¬ e'.IsSequence) (hpath : ¬ e'.IsPath) (h : e'.Legible) : e.Legible := by
  have htext : e.text = e'.text := by
    rw [Expr.text_eq_render he, Expr.text_eq_render he', hrender]
  have hlevels : e.levels = e'.levels := by
    rw [Expr.levels_of_not_sequence he, Expr.levels_of_not_sequence he', hnesting]
  have hroot : e' ≠ .root := by
    rintro rfl
    exact hpath trivial
  refine ⟨?_, fun levels least rest hadmits fits after => ?_, ?_, ?_, ?_⟩
  · rw [htext]
    exact h.begins
  · rw [htext, hlevels, hreread]
    exact h.opens levels least rest ⟨hadmits.ends, hadmits.chain, fun hp => absurd hp hpath,
      fun hr => absurd hr hroot⟩ fits after
  · rw [hrender, hnesting, hreread]
    exact h.alone
  · rw [hrender]
    exact h.beginsAlone
  · rw [hrender, hnesting, hreread]
    exact h.group

/-- Doubles are read back if a literal can denote them. -/
theorem legible_double {value : Float} (h : (Literal.double value).Readable) :
    (Expr.literal (.double value)).Legible := by
  cases hb : Binary.ofFloat? value with
  | some b => exact legible_finite hb (h b hb).1 (h b hb).2
  | none =>
    refine legible_of_render (Expr.render_of_not_finite hb) ?_ ?_ id id id
      (legible_castAs (by simp [Expr.Readable]) (legible_string (renderDouble value)))
    · simp [Expr.nesting, Literal.nesting, hb, Expr.operandNesting]
    · change (Literal.double value).reread = _
      rw [Literal.reread, hb]
      rfl

end TreeQuery.Parser
