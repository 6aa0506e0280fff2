import TreeQuery.Proofs.Expr.Printed
import TreeQuery.Proofs.Parser.Steps

/-!
# Reading paths

The text of a path has no parentheses: its segments are read one behind another, and what has been
read so far is the left side of the next `/`. So it is said of every expression how its text is read
behind a `/` on the way (`Continues`) and behind a leading one (`Roots`), besides by itself.
-/

namespace TreeQuery

open TreeQuery.Parser

namespace Expr

/-- Where a path may end behind `least`. -/
structure PathEnds (least : Precedence) (rest : List Char) : Prop where
  ends : NameEnds rest
  lt : least.rank < Precedence.path.rank
  stops : Stops .path rest

/-- Behind a `/` the text of an expression becomes the right side of a path, which is climbed on. -/
def Continues (e : Expr) : Prop :=
  ∀ (levels : Nat) (least : Precedence) (left : Expr) (rest : List Char), PathEnds least rest →
    ∀ (fits : Prop) (e' : Expr) (after : List Char),
      Reads fits (climb (operandAt levels) levels least (e.rereadAt (.after left))) rest e' after →
        Reads (e.operandNesting (e.nesting 1) ≤ levels + 1 ∧ fits)
          (climb (operandAt levels) levels least left) ('/' :: (e.text ++ rest)) e' after

/-- Behind a leading `/` the text of an expression becomes a path from the root, which is climbed on. -/
def Roots (e : Expr) : Prop :=
  ∀ (levels : Nat) (least : Precedence) (rest : List Char), PathEnds least rest →
    ∀ (fits : Prop) (e' : Expr) (after : List Char),
      Reads fits (climb (operandAt levels) levels least (e.rereadAt .root)) rest e' after →
        Reads (e.operandNesting (e.nesting 1) ≤ levels + 1 ∧ fits)
          (operandAt (levels + 1) least) ('/' :: (e.text ++ rest)) e' after

/-- The text of an expression is read back by itself and as a part of a path. -/
structure Walks (e : Expr) : Prop where
  legible : e.Legible
  head : ¬ e.StartsWithSlash → ∀ rest, NameEnds rest → (e.text ++ rest).head? ≠ some '/'
  starts : e.StartsWithWord → ∀ rest, NameEnds rest → startsPath (nextKind (e.text ++ rest)) = true
  continues : ¬ e.StartsWithSlash → e.Continues
  roots : e.StartsWithWord → e.Roots

/-! ### Segments -/

private theorem nesting_of_segment {e : Expr} (h : ¬ e.HasSlash) :
    e.operandNesting (e.nesting 1) = e.levels + 1 := by
  have hnesting : e.nesting 1 = e.nesting 0 + 1 := by
    cases e with
    | root | rootPath _ | path _ _ => exact absurd trivial h
    | var _ | contextItem | functionRef _ _ => rfl
    | _ =>
      simp only [nesting]
      omega
  rw [hnesting, levels]
  unfold operandNesting
  split <;> rfl

end Expr

end TreeQuery

namespace TreeQuery.Parser

variable {e l r : Expr} {least : Precedence} {cs rest : List Char}

/-- A text that starts with a slash starts with a token of slashes. -/
theorem kind_slash (cs : List Char) :
    nextKind ('/' :: cs) = .slash ∨ nextKind ('/' :: cs) = .doubleSlash := by
  by_cases hcs : cs.head? = some '/'
  · obtain ⟨ds, rfl⟩ : ∃ ds, cs = '/' :: ds := by
      cases cs with
      | nil => contradiction
      | cons c ds => exact ⟨ds, by rw [Option.some.inj hcs]⟩
    exact Or.inr rfl
  · exact Or.inl (starts_slash hcs).kind

private theorem begins_slash (cs : List Char) : Begins ('/' :: cs) := by
  have hkinds : nextKind ('/' :: cs) ∈ [.slash, .doubleSlash] := by
    rcases kind_slash cs with h | h <;> rw [h] <;> decide
  have hall : ∀ k ∈ [TokenKind.slash, .doubleSlash],
      k ∉ [TokenKind.rightParen, .rightBracket, .rightBrace, .comma, .eof] ∧ k ≠ .question := by
    decide
  exact ⟨by simp, (hall _ hkinds).1, fun h => absurd h (hall _ hkinds).2⟩

/-- Behind a segment a path goes on. -/
theorem pathEnds_slash (h : least.rank < Precedence.path.rank) (cs : List Char) :
    Expr.PathEnds least ('/' :: cs) := by
  refine ⟨nameEnds_of_kind (by simp) cs, h, fun t hkind _ precedence hprecedence => ?_⟩
  rcases kind_slash cs with hslash | hslash <;>
  · rw [hslash] at hkind
    simp only [Token.infixPrecedence?, hkind, Option.some.injEq] at hprecedence
    rw [← hprecedence]

/-- A segment behind a slash, and what is climbed on from there. -/
theorem continues_of_segment (h : ¬ e.HasSlash)
    (hhead : ∀ rest, NameEnds rest → (e.text ++ rest).head? ≠ some '/')
    (hread : ∀ levels rest, NameEnds rest → Stops .path rest →
      Reads (e.levels ≤ levels) (operandAt levels .path) (e.text ++ rest) e.reread rest) :
    e.Continues := by
  intro levels least left rest hends fits e' after hclimb
  rw [Expr.rereadAt_of_segment h] at hclimb
  rw [Expr.nesting_of_segment h, Nat.add_le_add_iff_right]
  exact reads_climb_slash (persists_operandAt levels) (hhead rest hends.ends) hends.lt
    (hread levels rest hends.ends hends.stops) hclimb

/-- A segment behind a leading slash, and what is climbed on from there. -/
theorem roots_of_segment (h : ¬ e.HasSlash)
    (hhead : ∀ rest, NameEnds rest → (e.text ++ rest).head? ≠ some '/')
    (hstarts : ∀ rest, NameEnds rest → startsPath (nextKind (e.text ++ rest)) = true)
    (hread : ∀ levels rest, NameEnds rest → Stops .path rest →
      Reads (e.levels ≤ levels) (operandAt levels .path) (e.text ++ rest) e.reread rest) :
    e.Roots := by
  intro levels least rest hends fits e' after hclimb
  have hslash := starts_slash (hhead rest hends.ends)
  rw [Expr.rereadAt_of_segment h] at hclimb
  rw [Expr.nesting_of_segment h, Nat.add_le_add_iff_right]
  refine reads_operandAt (reads_current fun t hkind _ => ?_) hclimb
  rw [hkind, hslash.kind]
  refine reads_advance fun _ _ _ => ?_
  rw [hslash.rest]
  refine reads_current fun t hkind _ => ?_
  rw [hkind, hstarts rest hends.ends, if_pos rfl]
  exact (hread levels rest hends.ends hends.stops).andThen (fun _ => persists_pure _) reads_pure

private theorem walks_of_segment (h : ¬ e.HasSlash) (hlegible : e.Legible)
    (hhead : ∀ rest, NameEnds rest → (e.text ++ rest).head? ≠ some '/')
    (hstarts : e.StartsWithWord → ∀ rest, NameEnds rest →
      startsPath (nextKind (e.text ++ rest)) = true)
    (hread : ∀ levels rest, NameEnds rest → Stops .path rest →
      Reads (e.levels ≤ levels) (operandAt levels .path) (e.text ++ rest) e.reread rest) :
    e.Walks where
  legible := hlegible
  head _ := hhead
  starts := hstarts
  continues _ := continues_of_segment h hhead hread
  roots hword := roots_of_segment h hhead (hstarts hword) hread

/-- What is no path is read behind a slash like behind any operator. -/
theorem walks_of_not_path (h : ¬ e.IsPath) (hlegible : e.Legible)
    (hhead : ∀ rest, NameEnds rest → (e.text ++ rest).head? ≠ some '/')
    (hstarts : e.StartsWithWord → ∀ rest, NameEnds rest →
      startsPath (nextKind (e.text ++ rest)) = true) : e.Walks := by
  have hslash : ¬ e.HasSlash := by
    cases e with
    | root | rootPath _ | path _ _ | step _ _ _ => exact absurd trivial h
    | _ => exact id
  have hroot : e ≠ .root := by
    rintro rfl
    exact h trivial
  refine walks_of_segment hslash hlegible hhead hstarts fun levels rest hends hstops => ?_
  exact reads_opens hlegible.opens
    ⟨hends, by decide, fun hpath => absurd hpath h, fun heq => absurd heq hroot⟩ hstops levels

/-! ### Steps and roots -/

variable {axis : Axis} {test : NodeTest} {es : List Expr}

private theorem levels_step (axis : Axis) (test : NodeTest) (es : List Expr) :
    (Expr.step axis test es).levels = 1 + Expr.nestingPredicates es := by
  rw [Expr.levels_of_not_sequence id]
  simp only [Expr.nesting]
  omega

private theorem begins_step (axis : Axis) (test : NodeTest) (es : List Expr) (rest : List Char) :
    Begins ((Expr.step axis test es).text ++ rest) := by
  have hname := isName_of_isSimpleName (isSimpleName_axis axis)
  rw [Expr.text_step]
  exact begins_of_starts (starts_axis axis _) hname.head_ne (by decide)

/-- Steps are read back, by themselves and as parts of paths. -/
theorem walks_step (hformed : (Expr.step axis test es).Formed) (hreadable : test.Readable)
    (h : ∀ e ∈ es, e.Legible) : (Expr.step axis test es).Walks := by
  have hread (levels : Nat) (rest : List Char) (hends : NameEnds rest) (hstops : Stops .path rest) :
      Reads ((Expr.step axis test es).levels ≤ levels + 1) (primary (operandAt levels) levels)
        ((Expr.step axis test es).text ++ rest) (Expr.step axis test es).reread rest := by
    refine (reads_primary_step hformed hreadable h hends hstops levels).congr ?_
    rw [levels_step]
    omega
  have hkind (rest : List Char) : nextKind ((Expr.step axis test es).text ++ rest) = .name := by
    rw [Expr.text_step]
    exact (starts_axis axis _).kind
  have hopens : (Expr.step axis test es).Opens := fun levels _ rest hadmits _ _ _ hclimb =>
    reads_operandAt (hread levels rest hadmits.ends (hadmits.path trivial).2) hclimb
  refine walks_of_segment id
    (legible_of_opens (Or.inl id) (fun rest _ => begins_step axis test es rest) hopens)
    (fun rest _ => head_ne_slash ?_) (fun _ rest _ => ?_) fun levels rest hends hstops => ?_
  · rw [hkind]
    decide
  · rw [hkind]
    rfl
  · cases levels with
    | zero =>
      refine reads_operandAt_zero ?_
      rw [levels_step]
      omega
    | succ levels =>
      exact (reads_operandAt (hread levels rest hends hstops) (reads_climb_stop hstops)).congr
        (and_iff_left trivial)

/-- A mere slash in front of what is no path. -/
theorem walks_root : Expr.root.Walks := by
  have hopens : Expr.root.Opens := by
    intro levels least rest hadmits fits e' after hclimb
    obtain ⟨hstarts, hhead⟩ := hadmits.root rfl
    have hslash := starts_slash hhead
    have hprimary : Reads True (primary (operandAt levels) levels) ('/' :: rest) .root rest := by
      refine reads_current fun t hkind _ => ?_
      rw [hkind, hslash.kind]
      refine reads_advance fun _ _ _ => ?_
      rw [hslash.rest]
      refine reads_current fun t hkind _ => ?_
      rw [hkind, hstarts]
      exact reads_pure
    have hlevels : Expr.root.levels ≤ levels + 1 := Nat.le_add_left 1 levels
    exact (reads_operandAt hprimary hclimb).congr (by rw [iff_true_intro hlevels])
  exact ⟨legible_of_opens (Or.inl id) (fun rest _ => begins_slash rest) hopens,
    fun h => absurd trivial h, nofun, fun h => absurd trivial h, nofun⟩

/-! ### Paths -/

/-- A path from the root is read on from its leading slash. -/
theorem walks_rootPath (hword : e.StartsWithWord) (he : e.Walks) : (Expr.rootPath e).Walks := by
  have hopens : (Expr.rootPath e).Opens := by
    intro levels least rest hadmits fits e' after hclimb
    obtain ⟨hlt, hstops⟩ := hadmits.path trivial
    rw [Expr.text_rootPath]
    exact he.roots hword levels least rest ⟨hadmits.ends, hlt, hstops⟩ fits e' after hclimb
  refine ⟨legible_of_opens (Or.inl id) (fun rest _ => ?_) hopens, fun h => absurd trivial h, nofun,
    fun h => absurd trivial h, nofun⟩
  rw [Expr.text_rootPath]
  exact begins_slash _

/-- A path is read as its left side, which is climbed on by the right one. -/
theorem walks_path (hreadable : (Expr.path l r).Readable) (hl : l.Walks) (hr : r.Walks) :
    (Expr.path l r).Walks := by
  obtain ⟨hroot, hslash⟩ := hreadable
  have hcontinues := hr.continues hslash
  have hends (cs : List Char) : NameEnds ('/' :: cs) := nameEnds_of_kind (by simp) cs
  have hopens : (Expr.path l r).Opens := by
    intro levels least rest hadmits fits e' after hclimb
    obtain ⟨hlt, hstops⟩ := hadmits.path trivial
    have hnext := pathEnds_slash hlt (r.text ++ rest)
    have hright := hcontinues levels least l.reread rest ⟨hadmits.ends, hlt, hstops⟩ fits e' after hclimb
    rw [Expr.text_path]
    refine (hl.legible.opens levels least _ ⟨hnext.ends, hadmits.chain, fun _ => ⟨hlt, hnext.stops⟩,
      fun heq => absurd heq hroot⟩ _ _ _ hright).congr ?_
    rw [Expr.levels_of_not_sequence (e := .path l r) id, ← and_assoc]
    simp only [Expr.nesting, Expr.levels, max_le_iff]
  refine ⟨legible_of_opens (Or.inl id) (fun rest _ => ?_) hopens, fun hstart rest _ => ?_,
    fun hstart rest _ => ?_, fun hstart => ?_, fun hstart => ?_⟩
  · rw [Expr.text_path]
    exact hl.legible.begins _ (hends _)
  · rw [Expr.text_path]
    exact hl.head hstart _ (hends _)
  · rw [Expr.text_path]
    exact hl.starts hstart _ (hends _)
  · intro levels least left rest hrest fits e' after hclimb
    have hright := hcontinues levels least _ rest hrest fits e' after hclimb
    rw [Expr.text_path]
    refine (hl.continues hstart levels least left _ (pathEnds_slash hrest.lt _) _ _ _ hright).congr ?_
    rw [← and_assoc]
    simp only [Expr.nesting, Expr.operandNesting, max_le_iff]
  · intro levels least rest hrest fits e' after hclimb
    have hright := hcontinues levels least _ rest hrest fits e' after hclimb
    rw [Expr.text_path]
    refine (hl.roots hstart levels least _ (pathEnds_slash hrest.lt _) _ _ _ hright).congr ?_
    rw [← and_assoc]
    simp only [Expr.nesting, Expr.operandNesting, max_le_iff]

end TreeQuery.Parser
