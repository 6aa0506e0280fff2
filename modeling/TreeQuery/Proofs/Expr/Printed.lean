import TreeQuery.Proofs.Expr.Reread
import TreeQuery.Proofs.Number.DecimalText

/-!
# What is reread prints the same

Rereading changes how paths are grouped, how decimals count their places and how doubles without
digits are written down as expressions, but never the canonical text: an expression and what it is
reread as are `Alike`, and a path has the same text however its segments are grouped.
-/

namespace TreeQuery

/-! ### Types -/

private theorem KindTest.render_reread (test : KindTest) : test.reread.render = test.render := by
  unfold KindTest.reread
  split <;> rfl

private theorem NodeTest.render_reread (test : NodeTest) : test.reread.render = test.render := by
  cases test with
  | kind test => exact test.render_reread
  | named _ | anyName | anyQualifier _ | anyLocal _ => rfl

private theorem SequenceType.render_reread (type : SequenceType) : type.reread.render = type.render := by
  cases type with
  | empty => rfl
  | items type occurrence =>
    cases type with
    | node test => exact congrArg (· ++ occurrence.render) test.render_reread
    | item | atomic _ | map | array | function => rfl

private theorem Param.render_reread (p : Param) : p.reread.render = p.render := by
  obtain ⟨name, type⟩ := p
  cases type with
  | none => rfl
  | some type => simp only [Param.reread, Param.render, Option.map_some, type.render_reread]

namespace Expr

/-! ### Expressions that print the same -/

/-- Two expressions with the same text wherever they stand. -/
structure Alike (e e' : Expr) : Prop where
  render : e.render = e'.render
  operand : ∀ text, e.operandText text = e'.operandText text
  base : ∀ text, e.baseText text = e'.baseText text
  target : ∀ text, e.targetText text = e'.targetText text

namespace Alike

variable {e e' e'' : Expr}

private theorem trans (h : e.Alike e') (h' : e'.Alike e'') : e.Alike e'' :=
  ⟨h.render.trans h'.render, fun text => (h.operand text).trans (h'.operand text),
    fun text => (h.base text).trans (h'.base text), fun text => (h.target text).trans (h'.target text)⟩

private theorem operandText (h : e.Alike e') : e.operandText e.render = e'.operandText e'.render := by
  rw [h.operand, h.render]

private theorem baseText (h : e.Alike e') : e.baseText e.render = e'.baseText e'.render := by
  rw [h.base, h.render]

private theorem targetText (h : e.Alike e') : e.targetText e.render = e'.targetText e'.render := by
  rw [h.target, h.render]

/-- Alike expressions are alike behind the same front. -/
theorem put (h : e.Alike e') (front : Front) : (front.put e).Alike (front.put e') := by
  cases front with
  | alone => exact h
  | root =>
    refine ⟨?_, fun _ => rfl, fun _ => rfl, fun _ => rfl⟩
    change (Expr.rootPath e).render = (Expr.rootPath e').render
    simp only [Expr.render, h.operandText]
  | after left =>
    refine ⟨?_, fun _ => rfl, fun _ => rfl, fun _ => rfl⟩
    change (Expr.path left e).render = (Expr.path left e').render
    simp only [Expr.render, h.operandText]

end Alike

/-! ### Lists -/

variable {es : List Expr}

private theorem renderOperands_reread (h : ∀ c ∈ es, c.reread.Alike c) :
    renderOperands (es.map reread) = renderOperands es := by
  induction es with
  | nil => rfl
  | cons e es ih =>
    obtain ⟨he, hes⟩ := List.forall_mem_cons.mp h
    simp only [List.map_cons, renderOperands, he.operandText, ih hes]

private theorem renderPredicates_reread (h : ∀ c ∈ es, c.reread.Alike c) :
    renderPredicates (es.map reread) = renderPredicates es := by
  induction es with
  | nil => rfl
  | cons e es ih =>
    obtain ⟨he, hes⟩ := List.forall_mem_cons.mp h
    simp only [List.map_cons, renderPredicates, he.render, ih hes]

private theorem renderAll_reread_bindings (word : String) {bs : List Binding}
    (h : ∀ b ∈ bs, b.value.reread.Alike b.value) :
    Binding.renderAll word (bs.map Binding.reread) = Binding.renderAll word bs := by
  induction bs with
  | nil => rfl
  | cons b bs ih =>
    obtain ⟨hb, hbs⟩ := List.forall_mem_cons.mp h
    obtain ⟨name, value⟩ := b
    simp only [List.map_cons, Binding.reread, Binding.renderAll, hb.operandText, ih hbs]

private theorem renderAll_reread_entries {entries : List Entry}
    (h : ∀ c ∈ entries.flatMap Entry.children, c.reread.Alike c) :
    Entry.renderAll (entries.map Entry.reread) = Entry.renderAll entries := by
  induction entries with
  | nil => rfl
  | cons m ms ih =>
    have hkey := h m.key (by simp [Entry.children])
    have hvalue := h m.value (by simp [Entry.children])
    have hms := ih fun c hc => h c (List.mem_append_right _ hc)
    obtain ⟨key, value⟩ := m
    simp only [List.map_cons, Entry.reread, Entry.renderAll, hkey.operandText, hvalue.operandText, hms]

private theorem renderAll_reread_arguments {as : List Argument}
    (h : ∀ c ∈ as.flatMap Argument.children, c.reread.Alike c) :
    Argument.renderAll (as.map Argument.reread) = Argument.renderAll as := by
  induction as with
  | nil => rfl
  | cons a as ih =>
    have has := ih fun c hc => h c (List.mem_append_right _ hc)
    cases a with
    | value e =>
      have he := h e (by simp [Argument.children])
      simp only [List.map_cons, Argument.reread, Argument.renderAll, he.operandText, has]
    | placeholder => simp only [List.map_cons, Argument.reread, Argument.renderAll, has]

private theorem render_reread_key {key : LookupKey} (h : ∀ c ∈ key.children, c.reread.Alike c) :
    key.reread.render = key.render := by
  cases key with
  | computed e => exact congrArg parenthesized (h e (List.mem_singleton.mpr rfl)).render
  | name _ | index _ | all => rfl

private theorem renderAll_reread_links {ls : List Link}
    (h : ∀ c ∈ ls.flatMap Link.children, c.reread.Alike c) :
    Link.renderAll (ls.map Link.reread) = Link.renderAll ls := by
  induction ls with
  | nil => rfl
  | cons l ls ih =>
    have hls := ih fun c hc => h c (List.mem_append_right _ hc)
    have hl : ∀ c ∈ l.children, c.reread.Alike c := fun c hc => h c (List.mem_append_left _ hc)
    cases l with
    | predicate e =>
      have he := hl e (List.mem_singleton.mpr rfl)
      simp only [List.map_cons, Link.reread, Link.renderAll, he.render, hls]
    | call args =>
      simp only [List.map_cons, Link.reread, Link.renderAll, renderAll_reread_arguments hl, hls]
    | lookup key =>
      simp only [List.map_cons, Link.reread, Link.renderAll, render_reread_key hl, hls]

/-! ### Segments -/

/-- An expression whose text has slashes of its own. -/
def HasSlash : Expr → Prop
  | .root | .rootPath _ | .path .. => True
  | _ => False

/-- A segment is put behind its front as a whole. -/
theorem rereadAt_of_segment {e : Expr} (h : ¬ e.HasSlash) (front : Front) :
    e.rereadAt front = front.put e.reread := by
  cases e with
  | root | rootPath _ | path _ _ => exact absurd trivial h
  | _ => rfl

/-- A double without digits is written as a cast. -/
theorem render_of_not_finite {value : Float} (h : Binary.ofFloat? value = none) :
    (literal (.double value)).render =
      (castAs (literal (.string (renderDouble value))) ⟨.double, false⟩).render := by
  change (Literal.double value).render = _
  rw [Literal.render, h]
  apply String.toList_inj.mp
  simp [renderDoubleCast, render, infixText, operandText, parenthesized, Literal.render,
    SingleType.render]

private theorem alike_reread_literal {value : Literal} (h : value.WellFormed) :
    value.reread.Alike (literal value) := by
  cases value with
  | integer _ | string _ => exact ⟨rfl, fun _ => rfl, fun _ => rfl, fun _ => rfl⟩
  | decimal d =>
    obtain ⟨d', hread, hrender⟩ := Decimal.read?_renderDecimalLiteral h
    rw [Literal.reread, hread, Option.getD_some]
    exact ⟨hrender, fun _ => rfl, fun _ => rfl, fun _ => rfl⟩
  | double value =>
    rw [Literal.reread]
    split
    · exact ⟨rfl, fun _ => rfl, fun _ => rfl, fun _ => rfl⟩
    · next hfinite =>
      have hnone : Binary.ofFloat? value = none := by simpa using hfinite
      exact ⟨(render_of_not_finite hnone).symm, fun _ => rfl, fun _ => rfl, fun _ => rfl⟩

private theorem renderAll_reread_of_body (word : String) {bs : List Binding} {body : Expr}
    (h : ∀ c ∈ bs.map Binding.value ++ [body], c.reread.Alike c) :
    Binding.renderAll word (bs.map Binding.reread) = Binding.renderAll word bs ∧
      (body.rereadAt .alone).Alike body :=
  ⟨renderAll_reread_bindings word fun b hb => h _ (List.mem_append_left _ (List.mem_map_of_mem hb)),
    h body (by simp)⟩

/-- A segment is printed from the texts inside it, which are the same. -/
theorem render_reread_segment {e : Expr} (hslash : ¬ e.HasSlash) (hformed : e.Formed)
    (h : ∀ c ∈ e.children, c.reread.Alike c) : e.reread.render = e.render := by
  cases e with
  | root | rootPath _ | path _ _ => exact absurd trivial hslash
  | literal value => exact (alike_reread_literal hformed).render
  | var _ | contextItem | functionRef _ _ => rfl
  | sequence es =>
    have hmembers : renderOperands (es.map reread) = renderOperands es := renderOperands_reread h
    rw [reread, rereadAt, rereadAll_eq]
    cases es with
    | nil => rfl
    | cons e es => exact congrArg commaSeparated hmembers
  | squareArray es =>
    have hmembers : renderOperands (es.map reread) = renderOperands es := renderOperands_reread h
    rw [reread, rereadAt, rereadAll_eq]
    simp only [Front.put, render, hmembers]
  | binary _ l r =>
    have hl : (l.rereadAt .alone).Alike l := h l (by simp [children])
    have hr : (r.rereadAt .alone).Alike r := h r (by simp [children])
    simp only [reread, rereadAt, Front.put, render, hl.operandText, hr.operandText]
  | signed _ e | castableAs e _ | castAs e _ =>
    have he : (e.rereadAt .alone).Alike e := h e (by simp [children])
    simp only [reread, rereadAt, Front.put, render, he.operandText]
  | curlyArray e =>
    have he : (e.rereadAt .alone).Alike e := h e (by simp [children])
    simp only [reread, rereadAt, Front.put, render, he.render]
  | instanceOf e type | treatAs e type =>
    have he : (e.rereadAt .alone).Alike e := h e (by simp [children])
    simp only [reread, rereadAt, Front.put, render, he.operandText, type.render_reread]
  | step axis test predicates =>
    have hpredicates : renderPredicates (predicates.map reread) = renderPredicates predicates :=
      renderPredicates_reread h
    simp only [reread, rereadAt, rereadAll_eq, Front.put, render, test.render_reread, hpredicates]
  | chain base ls =>
    have hbase : (base.rereadAt .alone).Alike base := h base (by simp [children])
    have hlinks := renderAll_reread_links fun c hc => h c (List.mem_cons_of_mem _ hc)
    simp only [reread, rereadAt, Link.rereadAll_eq, Front.put, render, hbase.baseText, hlinks]
  | call _ as =>
    have has : Argument.renderAll (as.map Argument.reread) = Argument.renderAll as :=
      renderAll_reread_arguments h
    simp only [reread, rereadAt, Argument.rereadAll_eq, Front.put, render, has]
  | inlineFunction params result body =>
    have hbody : (body.rereadAt .alone).Alike body := h body (by simp [children])
    have hparams : (params.map Param.reread).map Param.render = params.map Param.render := by
      rw [List.map_map]
      exact List.map_congr_left fun p _ => p.render_reread
    cases result with
    | none => simp only [reread, rereadAt, Front.put, render, hbody.render, hparams, Option.map_none]
    | some type =>
      simp only [reread, rereadAt, Front.put, render, hbody.render, hparams, Option.map_some,
        type.render_reread]
  | forEach bs body | letIn bs body | quantified _ bs body =>
    have hin := (renderAll_reread_of_body "in" h).1
    have hassign := (renderAll_reread_of_body ":=" h).1
    have hbody := (renderAll_reread_of_body "in" h).2
    simp only [reread, rereadAt, Binding.rereadAll_eq, Front.put, render, hin, hassign,
      hbody.operandText]
  | ifThenElse c t f =>
    have hc : (c.rereadAt .alone).Alike c := h c (by simp [children])
    have ht : (t.rereadAt .alone).Alike t := h t (by simp [children])
    have hf : (f.rereadAt .alone).Alike f := h f (by simp [children])
    simp only [reread, rereadAt, Front.put, render, hc.render, ht.operandText, hf.operandText]
  | mapOf entries =>
    have hentries : Entry.renderAll (entries.map Entry.reread) = Entry.renderAll entries :=
      renderAll_reread_entries h
    rw [reread, rereadAt, Entry.rereadAll_eq]
    cases entries with
    | nil => rfl
    | cons m ms => exact congrArg (fun texts => braced "map" (commaSeparated texts)) hentries
  | arrowNamed base _ as =>
    have hbase : (base.rereadAt .alone).Alike base := h base (by simp [children])
    have has := renderAll_reread_arguments fun c hc => h c (List.mem_cons_of_mem _ hc)
    simp only [reread, rereadAt, Argument.rereadAll_eq, Front.put, render, hbase.operandText, has]
  | arrowDynamic base target as =>
    have hbase : (base.rereadAt .alone).Alike base := h base (by simp [children])
    have htarget : (target.rereadAt .alone).Alike target := h target (by simp [children])
    have has := renderAll_reread_arguments fun c hc =>
      h c (List.mem_cons_of_mem _ (List.mem_cons_of_mem _ hc))
    simp only [reread, rereadAt, Argument.rereadAll_eq, Front.put, render, hbase.operandText,
      htarget.targetText, has]
  | lookup key =>
    have hkey : key.reread.render = key.render := render_reread_key h
    simp only [reread, rereadAt, Front.put, render, hkey]

private theorem alike_reread_segment {e : Expr} (hslash : ¬ e.HasSlash) (hformed : e.Formed)
    (h : ∀ c ∈ e.children, c.reread.Alike c) : e.reread.Alike e := by
  have hrender := render_reread_segment hslash hformed h
  cases e with
  | root | rootPath _ | path _ _ => exact absurd trivial hslash
  | literal value => exact alike_reread_literal hformed
  | sequence es => cases es <;> exact ⟨hrender, fun _ => rfl, fun _ => rfl, fun _ => rfl⟩
  | _ => exact ⟨hrender, fun _ => rfl, fun _ => rfl, fun _ => rfl⟩

/-! ### Paths -/

private theorem StartsWithWord.not_slash {e : Expr} (h : e.StartsWithWord) : ¬ e.StartsWithSlash := by
  induction e using Expr.induction with
  | h e ih =>
  cases e with
  | path left _ => exact ih left (by simp [children]) h
  | root | rootPath _ => contradiction
  | _ => exact id

/-- The segments of a path have the same text however they are grouped. -/
theorem alike_path {l l' : Expr} (r : Expr) (front : Front) (h : l'.Alike (front.put l)) :
    (path l' r).Alike (front.put (path l r)) := by
  have hl := h.operandText
  cases front with
  | alone =>
    refine ⟨?_, fun _ => rfl, fun _ => rfl, fun _ => rfl⟩
    change (path l' r).render = (path l r).render
    simp only [Front.put] at hl
    simp only [render, hl]
  | root =>
    refine ⟨?_, fun _ => rfl, fun _ => rfl, fun _ => rfl⟩
    change (path l' r).render = (rootPath (path l r)).render
    simp only [Front.put, render, operandText] at hl
    simp only [render, operandText, hl, String.append_assoc]
  | after left =>
    refine ⟨?_, fun _ => rfl, fun _ => rfl, fun _ => rfl⟩
    change (path l' r).render = (path left (path l r)).render
    simp only [Front.put, render, operandText] at hl
    simp only [render, operandText, hl, String.append_assoc]

/-- What an expression is reread as behind a front prints like the expression behind that front. -/
theorem alike_rereadAt {e : Expr} (hformed : e.WellFormed) (hreadable : e.All Readable) (front : Front)
    (hfront : front = .alone ∨ ¬ e.StartsWithSlash) : (e.rereadAt front).Alike (front.put e) := by
  induction e using Expr.induction generalizing front with
  | h e ih =>
  have hchild : ∀ c ∈ e.children, ∀ front : Front, front = .alone ∨ ¬ c.StartsWithSlash →
      (c.rereadAt front).Alike (front.put c) := fun c hc front =>
    ih c hc (hformed.inside c hc) (hreadable.inside c hc) front
  by_cases hslash : e.HasSlash
  · cases e with
    | root => exact ⟨rfl, fun _ => rfl, fun _ => rfl, fun _ => rfl⟩
    | rootPath relative =>
      obtain rfl := hfront.resolve_right fun h => h trivial
      have hword : relative.StartsWithWord := hreadable.here
      exact hchild relative (by simp [children]) .root (Or.inr hword.not_slash)
    | path left right =>
      obtain ⟨-, hright⟩ := hreadable.here
      have hleft := hchild left (by simp [children]) front hfront
      have hafter := hchild right (by simp [children]) (.after (left.rereadAt front)) (Or.inr hright)
      exact hafter.trans (alike_path right front hleft)
    | _ => contradiction
  · rw [rereadAt_of_segment hslash]
    exact (alike_reread_segment hslash hformed.here fun c hc =>
      hchild c hc .alone (Or.inl rfl)).put front

/-- The tree that is read again has the same text. -/
theorem render_reread {e : Expr} (hformed : e.WellFormed) (hreadable : e.All Readable) :
    e.reread.render = e.render :=
  (alike_rereadAt hformed hreadable .alone (Or.inl rfl)).render

end Expr

end TreeQuery
