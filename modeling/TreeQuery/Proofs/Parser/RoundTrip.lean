import TreeQuery.Proofs.Parser.Atoms

/-!
# Reading canonical text back

The canonical text of a plain expression is read as the expression again: by induction on the
expression its text is legible in every place, and no place is nested too deep.
-/

namespace TreeQuery

open TreeQuery.Parser

namespace Expr

/-- An expression that is no path is legible if everything inside it is. -/
theorem legible_of_inside {e : Expr} (hformed : e.Formed) (hreadable : e.Readable) (hpath : ¬ e.IsPath)
    (hliteral : ∀ value, e = .literal value → (literal value).Legible)
    (htarget : ∀ c ∈ e.children, c.Formed) (htidy : ∀ c ∈ e.children, c.Tidy)
    (h : ∀ c ∈ e.children, c.Legible) : e.Legible := by
  cases e with
  | literal value => exact hliteral value rfl
  | var name => exact legible_var hformed
  | contextItem => exact legible_contextItem
  | sequence es => exact legible_sequence hformed h htidy
  | binary op l r => exact legible_binary hreadable (h l (by simp [children])) (h r (by simp [children]))
  | signed sign e => exact legible_signed (h e (by simp [children]))
  | root | rootPath _ | path _ _ | step _ _ _ => exact absurd trivial hpath
  | chain base ls =>
    exact legible_chain hformed (h base (by simp [children])) fun c hc => h c (List.mem_cons_of_mem _ hc)
  | call name args => exact legible_call hformed h
  | functionRef name arity => exact legible_functionRef hformed
  | inlineFunction params result body =>
    exact legible_inlineFunction hformed hreadable (h body (by simp [children]))
  | forEach bs body =>
    exact legible_forEach hformed hreadable
      (fun b hb => h _ (List.mem_append_left _ (List.mem_map_of_mem hb))) (h body (by simp [children]))
  | letIn bs body =>
    exact legible_letIn hformed hreadable
      (fun b hb => h _ (List.mem_append_left _ (List.mem_map_of_mem hb))) (h body (by simp [children]))
  | quantified q bs body =>
    exact legible_quantified hformed hreadable
      (fun b hb => h _ (List.mem_append_left _ (List.mem_map_of_mem hb))) (h body (by simp [children]))
  | ifThenElse c t f =>
    exact legible_ifThenElse hreadable (h c (by simp [children])) (h t (by simp [children]))
      (h f (by simp [children]))
  | mapOf entries =>
    have hentry : ∀ m ∈ entries, ∀ c ∈ m.children, c.Legible := fun m hm c hc =>
      h c (List.mem_flatMap.mpr ⟨m, hm, hc⟩)
    exact legible_mapOf fun m hm =>
      ⟨hentry m hm _ (by simp [Entry.children]), hentry m hm _ (by simp [Entry.children])⟩
  | squareArray es => exact legible_squareArray h
  | curlyArray e => exact legible_curlyArray (h e (by simp [children]))
  | arrowNamed base name args =>
    exact legible_arrowNamed hformed (h base (by simp [children]))
      fun c hc => h c (List.mem_cons_of_mem _ hc)
  | arrowDynamic base target args =>
    exact legible_arrowDynamic (htarget target (by simp [children])) (h base (by simp [children]))
      (h target (by simp [children]))
      fun c hc => h c (List.mem_cons_of_mem _ (List.mem_cons_of_mem _ hc))
  | lookup key => exact legible_lookup hformed h
  | instanceOf e type => exact legible_instanceOf hformed hreadable (h e (by simp [children]))
  | treatAs e type => exact legible_treatAs hformed hreadable (h e (by simp [children]))
  | castableAs e type => exact legible_castableAs hreadable (h e (by simp [children]))
  | castAs e type => exact legible_castAs hreadable (h e (by simp [children]))

/-- The literals of plain expressions are read off their token. -/
theorem legible_of_plain_literal {value : Literal} (hformed : value.WellFormed)
    (hplain : (literal value).IsPlain) : (literal value).Legible := by
  cases value with
  | integer i => exact legible_integer hformed
  | string s => exact legible_string s
  | decimal _ | double _ => contradiction

private theorem IsPlain.not_isPath {e : Expr} (h : e.IsPlain) : ¬ e.IsPath := by
  cases e <;> first | exact id | contradiction

private theorem legible_of_plain {e : Expr} (hformed : e.WellFormed) (hplain : e.Plain) : e.Legible := by
  induction e using Expr.induction with
  | h e ih =>
    have here := hplain.here
    refine legible_of_inside hformed.here hplain.readable.here here.not_isPath (fun value heq => ?_)
      (fun c hc => (hformed.inside c hc).here) (fun c hc => ?_) fun c hc =>
        ih c hc (hformed.inside c hc) (hplain.inside c hc)
    · subst heq
      exact legible_of_plain_literal hformed.here here
    · have hinside : c.Plain := hplain.inside c hc
      exact tidy (hformed.inside c hc) hinside.readable

/-- What a whole text is read as, if it is legible and is not nested too deep; and that there are
errors if it is. -/
theorem Legible.read {e : Expr} (h : e.Legible) :
    (e.nesting 0 ≤ maxNesting → Expr.read e.render = (e.reread, [])) ∧
      (¬ e.nesting 0 ≤ maxNesting → (Expr.read e.render).2 ≠ []) := by
  have hnames : NameEnds [] := ⟨breaks_nil, nofun⟩
  have hbegins := h.beginsAlone [] hnames
  have halone := h.alone maxNesting [] hnames (by decide)
  rw [List.append_nil] at hbegins halone
  have hprogram : Reads (e.nesting 0 ≤ maxNesting) program e.render.toList e.reread [] := by
    refine (reads_isAt .eof).then ?_
    rw [beq_false_of_ne (hbegins.ne (by decide))]
    refine halone.andThen (fun _ => (persists_isAt _).bind fun _ =>
      .ite ((persists_error _).bind fun _ => persists_pure _) (persists_pure _)) ?_
    exact (reads_isAt .eof).then reads_pure
  obtain ⟨hfits, hmiss⟩ := hprogram _ (ParserState.At.start e.render.toList)
  constructor
  · intro hle
    obtain ⟨hvalue, hat⟩ := hfits hle
    rw [Expr.read, hvalue, hat.errors]
    rfl
  · intro hlt herrors
    exact hmiss hlt (List.reverse_eq_nil_iff.mp herrors)

/-- The canonical text of a plain expression that is no more than 40 expressions high is read without
errors, as the expression itself. -/
theorem read_render {e : Expr} (hformed : e.WellFormed) (hplain : e.Plain) (hheight : e.height ≤ 40) :
    Expr.read e.render = (e, []) := by
  have hnesting : e.nesting 0 ≤ maxNesting := by
    have hle := (nesting_le_of_plain hplain).1
    simp only [maxNesting]
    omega
  have hread := (legible_of_plain hformed hplain).read.1 hnesting
  rwa [reread_of_plain hplain] at hread

/-- A call with a placeholder and a lookup in its result. -/
theorem read_render_call :
    let e : Expr := .chain (.var (.simple "f"))
      [.call [.value .contextItem, .placeholder], .lookup (.name "key")]
    (e.WellFormed ∧ e.Plain ∧ e.height ≤ 40) ∧ Expr.read e.render = (e, []) := by
  intro e
  have hname : (QName.simple "f").WellFormed := ⟨by decide, nofun⟩
  have hkey : (LookupKey.name "key").WellFormed := (by decide : isSimpleName "key".toList = true)
  have hinside {p : Expr → Prop} (hvar : p (.var (.simple "f"))) (hitem : p .contextItem) :
      ∀ c ∈ e.children, p c :=
    List.forall_mem_cons.mpr ⟨hvar, List.forall_mem_singleton.mpr hitem⟩
  have hformed : e.WellFormed := by
    refine .intro ⟨id, by simp, by simp [Link.WellFormed, hkey]⟩ (hinside ?_ ?_)
    · exact .intro hname nofun
    · exact .intro trivial nofun
  have hplain : e.Plain := .intro trivial (hinside (.intro trivial nofun) (.intro trivial nofun))
  have hleaf {c : Expr} (hc : c.children = []) : c.height < 40 :=
    Nat.lt_of_le_of_lt (height_le (n := 0) (by simp [hc])) (by decide)
  have hheight : e.height ≤ 40 := height_le (hinside (hleaf rfl) (hleaf rfl))
  exact ⟨⟨hformed, hplain, hheight⟩, read_render hformed hplain hheight⟩

end Expr

end TreeQuery
