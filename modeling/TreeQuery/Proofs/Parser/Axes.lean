import TreeQuery.Proofs.Parser.Precedence
import TreeQuery.Proofs.Parser.Stability

/-!
# Steps whose axis is spelled out

A step may be written as an axis, two colons, a node test in any of its forms and predicates. It is
read as the step along this axis with this test and these predicates. There is one exception: a test
for attributes that is written along the children is read as one along the attributes, as it is where
no axis is written.
-/

namespace TreeQuery

open TreeQuery.Parser

/-- What may be written for a node test that is nested no more than so many levels deep. -/
inductive NodeTest.Written : Nat → List Char → NodeTest → Prop where
  | name {levels : Nat} {test : NodeTest} (hformed : test.WellFormed) (hname : ∀ k, test ≠ .kind k) :
    Written levels test.render.toList test
  | kind {levels : Nat} {cs : List Char} {test : KindTest} (h : test.Written levels cs) :
    Written levels (test.keyword.toList ++ '(' :: (cs ++ [')'])) (.kind test)

/-- The one pair of an axis and a test that is not taken as it is written. -/
theorem Axis.taken_eq_iff {axis : Axis} {test : NodeTest} :
    axis.taken test = axis ↔ ∀ name, ¬ (axis = .child ∧ test = .kind (.attribute name)) := by
  unfold taken
  split
  · next name => simp
  · next h => exact iff_of_true rfl fun name hpair => h name hpair.2 hpair.1

namespace Parser

variable {test : NodeTest} {es : List Expr} {n levels : Nat} {cs rest : List Char}

private theorem reads_nodeTest_written (h : test.Written n cs) (hle : n ≤ levels) (hrest : NameEnds rest)
    (hparen : nextKind rest ≠ .leftParen) :
    Reads True (nodeTest levels) (cs ++ rest) test rest := by
  cases h with
  | name hformed hname =>
    cases test with
    | kind k => exact absurd rfl (hname k)
    | named | anyName | anyQualifier | anyLocal => exact reads_nodeTest hformed trivial hrest hparen levels
  | kind h =>
    rw [List.append_assoc, List.cons_append, List.append_assoc, List.singleton_append]
    exact reads_nodeTest_kind h hle rest

/-- A step whose axis is spelled out is a whole operand. -/
theorem reads_last_step (axis : Axis) {p : Precedence} (htest : test.Written n cs) (hle : n ≤ levels)
    (h : ∀ e ∈ es, e.Legible) (hnesting : Expr.nestingPredicates es ≤ levels) :
    Reads True (operandAt (levels + 1) p)
      (axis.name.toList ++ ':' :: ':' :: (cs ++ Expr.predicatesText es))
      (.step (axis.taken test) test (es.map Expr.reread)) [] := by
  have hnames : NameEnds [] := ⟨breaks_nil, nofun⟩
  have hread := reads_nodeTest_written htest hle (nameEnds_predicates es hnames)
    (kind_predicates es (by decide))
  have hprimary : Reads _ (primary (operandAt levels) levels)
      (axis.name.toList ++ ':' :: ':' :: (cs ++ (Expr.predicatesText es ++ []))) _ [] :=
    reads_primary_axis (reads_step_written hread h (by decide))
  rw [List.append_nil] at hprimary
  exact (reads_operandAt hprimary (reads_climb_stop (stops_of_kind (by decide)))).congr
    (iff_true_intro ⟨hnesting, trivial⟩)

end Parser

namespace Expr

variable {test : NodeTest} {es : List Expr} {cs : List Char}

/-- Any axis in front of any test, with any predicates behind it that are not nested too deep, is read
without errors as a step with that test and these predicates, along that axis or, if it is a test for
attributes along the children, along the attributes. -/
theorem read_axis (axis : Axis) (htest : test.Written (maxNesting - 1) cs)
    (h : ∀ e ∈ es, e.WellFormed ∧ e.All Rereadable ∧ e.nesting 0 < maxNesting) :
    read (String.ofList (axis.name.toList ++ ':' :: ':' :: (cs ++ predicatesText es))) =
      (.step (axis.taken test) test (es.map reread), []) := by
  have hlegible : ∀ e ∈ es, e.Legible := fun e he => (walks_of_readable (h e he).1 (h e he).2.1).legible
  have hnesting : nestingPredicates es ≤ maxNesting - 1 :=
    (nestingPredicates_le).mpr fun e he => Nat.le_pred_of_lt (h e he).2.2
  have hstep : Reads True (operandAt maxNesting .comma) _ _ [] :=
    reads_last_step axis htest (Nat.le_refl _) hlegible hnesting
  exact read_of_single ((starts_axis axis _).kind.trans_ne (by decide)) hstep

/-- The axis is not kept where attributes of a name are tested for along the children. -/
theorem read_child_attribute {name : QName} (hname : name.WellFormed) :
    read ("child::attribute(" ++ name.render ++ ")") =
      (.step .attribute (.kind (.attribute (some name))) [], []) := by
  have htest : NodeTest.Written (maxNesting - 1)
      ("attribute".toList ++ '(' :: (name.render.toList ++ [] ++ [')'])) (.kind (.attribute (some name))) :=
    .kind (.attribute (.name hname) .omitted)
  have htext : ("child::attribute(" ++ name.render ++ ")").toList = "child".toList ++ ':' :: ':' ::
      ("attribute".toList ++ '(' :: (name.render.toList ++ [] ++ [')']) ++ predicatesText []) := by
    simp [predicatesText]
  rw [← String.ofList_toList (s := "child::attribute(" ++ name.render ++ ")"), htext]
  exact read_axis .child htest (List.forall_mem_nil _)

end Expr

end TreeQuery
