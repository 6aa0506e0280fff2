import TreeQuery.Proofs.Expr.Children

/-!
# Steps to left operands

An operand on the left of an operator is not read inside anything: it is there already when the operator
is found, and becomes part of a higher expression with every operator behind it. So steps to left operands
are counted apart from the others: by `heightWith`, where such a step counts as much as one likes.
-/

namespace TreeQuery

namespace Expr

/-- The operand on the left of an operator, if the expression has one. -/
def leftOperands : Expr → List Expr
  | .binary _ left _ | .path left _ => [left]
  | .chain base _ | .arrowNamed base _ _ | .arrowDynamic base _ _ => [base]
  | .instanceOf e _ | .treatAs e _ | .castableAs e _ | .castAs e _ => [e]
  | _ => []

/-- The other expressions that stand directly inside an expression. -/
def innerOperands : Expr → List Expr
  | .binary _ _ right | .path _ right => [right]
  | .chain _ links => links.flatMap Link.children
  | .arrowNamed _ _ args => args.flatMap Argument.children
  | .arrowDynamic _ target args => target :: args.flatMap Argument.children
  | .instanceOf _ _ | .treatAs _ _ | .castableAs _ _ | .castAs _ _ => []
  | e => e.children

private theorem children_eq (e : Expr) : e.children = e.leftOperands ++ e.innerOperands := by
  cases e <;> rfl

private theorem mem_children_of_left {e c : Expr} (h : c ∈ e.leftOperands) : c ∈ e.children := by
  rw [children_eq]
  exact List.mem_append_left _ h

private theorem mem_children_of_inner {e c : Expr} (h : c ∈ e.innerOperands) : c ∈ e.children := by
  rw [children_eq]
  exact List.mem_append_right _ h

/-- How high an expression is if a step to the operand on the left of an operator counts `k`, and every
other step to an expression inside counts one. -/
def heightWith (k : Nat) (e : Expr) : Nat :=
  max ((e.leftOperands.attach.map fun c => c.1.heightWith k + k).foldr max 0)
    ((e.innerOperands.attach.map fun c => c.1.heightWith k + 1).foldr max 0)
termination_by sizeOf e
decreasing_by
  · exact sizeOf_lt_of_mem_children (mem_children_of_left c.2)
  · exact sizeOf_lt_of_mem_children (mem_children_of_inner c.2)

/-- The height of an expression without the steps to left operands. -/
def nestedHeight (e : Expr) : Nat := e.heightWith 0

variable {k n : Nat} {e c : Expr} {es : List Expr}

private theorem heightWith_left (h : c ∈ e.leftOperands) : c.heightWith k + k ≤ e.heightWith k := by
  rw [heightWith.eq_def k e]
  have hmem : c.heightWith k + k ∈ e.leftOperands.attach.map fun c => c.1.heightWith k + k :=
    List.mem_map.mpr ⟨⟨c, h⟩, List.mem_attach _ _, rfl⟩
  exact Nat.le_trans (List.le_max_of_le hmem (Nat.le_refl _)) (Nat.le_max_left _ _)

private theorem heightWith_inner (h : c ∈ e.innerOperands) : c.heightWith k + 1 ≤ e.heightWith k := by
  rw [heightWith.eq_def k e]
  have hmem : c.heightWith k + 1 ∈ e.innerOperands.attach.map fun c => c.1.heightWith k + 1 :=
    List.mem_map.mpr ⟨⟨c, h⟩, List.mem_attach _ _, rfl⟩
  exact Nat.le_trans (List.le_max_of_le hmem (Nat.le_refl _)) (Nat.le_max_right _ _)

/-- An expression is as high as its operands allow: an operand on the left adds as many levels as are
counted for it, any other part adds one. -/
theorem heightWith_le (hleft : ∀ c ∈ e.leftOperands, c.heightWith k + k ≤ n)
    (hinner : ∀ c ∈ e.innerOperands, c.heightWith k + 1 ≤ n) : e.heightWith k ≤ n := by
  rw [heightWith.eq_def]
  refine Nat.max_le.mpr ⟨List.max_le_of_forall_le _ _ fun m hm => ?_,
    List.max_le_of_forall_le _ _ fun m hm => ?_⟩
  · obtain ⟨c, -, rfl⟩ := List.mem_map.mp hm
    exact hleft c.1 c.2
  · obtain ⟨c, -, rfl⟩ := List.mem_map.mp hm
    exact hinner c.1 c.2

/-- If all steps count alike, this is the height. -/
theorem heightWith_one (e : Expr) : e.heightWith 1 = e.height := by
  induction e using Expr.induction with
  | h e ih =>
    apply Nat.le_antisymm
    · refine heightWith_le (fun c hc => ?_) fun c hc => ?_
      · have hmem := mem_children_of_left hc
        rw [ih c hmem]
        exact height_lt_of_mem_children hmem
      · have hmem := mem_children_of_inner hc
        rw [ih c hmem]
        exact height_lt_of_mem_children hmem
    · refine height_le fun c hc => ?_
      rw [← ih c hc]
      rw [children_eq] at hc
      rcases List.mem_append.mp hc with hleft | hinner
      · exact heightWith_left (k := 1) hleft
      · exact heightWith_inner (k := 1) hinner

/-- Expressions that are put together without an operator. -/
theorem heightWith_of_children (hleft : e.leftOperands = []) (h : ∀ c ∈ e.children, c.heightWith k ≤ n) :
    e.heightWith k ≤ n + 1 := by
  refine heightWith_le (fun c hc => ?_) fun c hc => ?_
  · rw [hleft] at hc
    contradiction
  · exact Nat.succ_le_succ (h c (mem_children_of_inner hc))

/-- An expression without parts has no height. -/
theorem heightWith_of_childless (h : e.children = []) : e.heightWith k ≤ n := by
  have hboth := children_eq e
  rw [h] at hboth
  obtain ⟨hleft, hinner⟩ := List.append_eq_nil_iff.mp hboth.symm
  refine heightWith_le (fun c hc => ?_) fun c hc => ?_
  · rw [hleft] at hc
    contradiction
  · rw [hinner] at hc
    contradiction

/-- Splicing members of sequences into a sequence does not make it higher. -/
theorem heightWith_ofMembers (h : ∀ e ∈ es, e.heightWith k ≤ n) : (ofMembers es).heightWith k ≤ n + 1 := by
  have hflat : ∀ e ∈ es.flatMap members, e.heightWith k ≤ n := by
    intro e he
    obtain ⟨outer, houter, he⟩ := List.mem_flatMap.mp he
    cases outer with
    | sequence ms =>
      have hstep : e.heightWith k + 1 ≤ (sequence ms).heightWith k := heightWith_inner he
      have houter := h _ houter
      omega
    | _ =>
      obtain rfl := List.mem_singleton.mp he
      exact h _ houter
  unfold ofMembers
  split
  · next e heq =>
    rw [heq] at hflat
    exact Nat.le_succ_of_le (hflat e (List.mem_singleton.mpr rfl))
  · exact heightWith_of_children rfl hflat

/-- A chain that becomes longer is put on top of its base again. -/
theorem heightWith_link {l : Link} (hbase : e.heightWith k + k ≤ n)
    (hlink : ∀ c ∈ l.children, c.heightWith k + 1 ≤ n) : (e.link l).heightWith k ≤ n := by
  have hchain (e : Expr) (he : e.heightWith k + k ≤ n) : (chain e [l]).heightWith k ≤ n := by
    refine heightWith_le (List.forall_mem_singleton.mpr he) fun c hc => hlink c ?_
    simpa [innerOperands] using hc
  cases e with
  | chain base ls =>
    have hleft : base.heightWith k + k ≤ (chain base ls).heightWith k :=
      heightWith_left (List.mem_singleton.mpr rfl)
    refine heightWith_le (List.forall_mem_singleton.mpr (by omega)) fun c hc => ?_
    have hmem : c ∈ ls.flatMap Link.children ∨ c ∈ l.children := by
      simpa [innerOperands, link] using hc
    rcases hmem with hmem | hmem
    · have hinner : c.heightWith k + 1 ≤ (chain base ls).heightWith k := heightWith_inner hmem
      omega
    · exact hlink c hmem
  | _ => exact hchain _ hbase

end Expr

end TreeQuery
