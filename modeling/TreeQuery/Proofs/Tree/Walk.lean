import TreeQuery.Proofs.Tree.Built
import TreeQuery.Tree.Walk

/-!
# Walks in a tree

The bounds of the walks are never felt in a tree whose links fit together: a node is created after
its parent, so the way up gets shorter with the number of the node and the way down with how many
nodes were created after it. Without the bounds each walk is given by one step and the walk from
there.
-/

namespace TreeQuery.Tree

variable {t : Tree} {n p c : Nat}

/-- The document and the elements are no attributes. -/
theorem IsBranch.kind_ne (h : t.IsBranch n) : t.kind n ≠ .attribute := by
  intro heq
  rcases h.kind with hkind | hkind <;> rw [hkind] at heq <;> contradiction

/-- Without a parent there are no ancestors. -/
theorem ancestors_of_none (h : t.parent? n = none) : t.ancestors n = [] := by
  cases n <;> simp [ancestors, ancestorsWithin, h]

/-- An attribute has no siblings. -/
theorem siblings_of_attribute (h : t.kind n = .attribute) : t.siblings n = [] := by
  rw [siblings, if_pos h]

/-- Without a parent there are no siblings. -/
theorem siblings_of_none (h : t.parent? n = none) : t.siblings n = [] := by
  rw [siblings, h]
  split <;> rfl

/-- The siblings of a node are the children of its parent. -/
theorem siblings_of_some (hkind : t.kind n ≠ .attribute) (h : t.parent? n = some p) :
    t.siblings n = t.children p := by
  rw [siblings, if_neg hkind, h]

namespace Joined

/-- A parent was there before its children. -/
theorem lt_of_parent? (ht : t.Joined) (h : t.parent? n = some p) : p < n := by
  have hpos : 0 < n := by
    refine Nat.pos_of_ne_zero fun hzero => ?_
    rw [hzero, ht.parent?_zero] at h
    contradiction
  obtain ⟨q, hq, hparent⟩ := ht.parent n hpos (ht.lt_size n p h)
  rw [← Option.some.inj (hparent.symm.trans h)]
  exact hq

/-- The node above another one is there as well. -/
theorem lt_size_of_parent? (ht : t.Joined) (h : t.parent? n = some p) : p < t.size :=
  Nat.lt_trans (ht.lt_of_parent? h) (ht.lt_size n p h)

theorem children_of_size_le (ht : t.Joined) (h : t.size ≤ n) : t.children n = [] :=
  List.eq_nil_iff_forall_not_mem.mpr fun c hc =>
    Nat.not_lt.mpr h (ht.lt_size_of_parent? ((ht.mem_children n c).mp hc).1)

/-! ### The way up -/

/-- What holds of the document, and of every node whose parent it holds of, holds of all nodes. -/
theorem upward (ht : t.Joined) {P : Nat → Prop} (hzero : P 0)
    (hstep : ∀ n p, t.parent? n = some p → P p → P n) (hn : n < t.size) : P n := by
  induction n using Nat.strongRecOn with
  | _ n ih =>
    rcases Nat.eq_zero_or_pos n with rfl | hpos
    · exact hzero
    · obtain ⟨p, hp, hparent⟩ := ht.parent n hpos hn
      exact hstep n p hparent (ih p hp (Nat.lt_trans hp hn))

private theorem ancestorsWithin_eq (ht : t.Joined) {steps : Nat} (h : n ≤ steps) :
    t.ancestorsWithin steps n = t.ancestors n := by
  induction n using Nat.strongRecOn generalizing steps with
  | _ n ih =>
    cases hparent : t.parent? n with
    | none =>
      cases steps with
      | zero => rw [ancestors, Nat.le_zero.mp h]
      | succ steps => cases n <;> simp [ancestors, ancestorsWithin, hparent]
    | some p =>
      have hp := ht.lt_of_parent? hparent
      obtain ⟨steps, rfl⟩ : ∃ k, steps = k + 1 := ⟨steps - 1, by omega⟩
      obtain ⟨m, rfl⟩ : ∃ m, n = m + 1 := ⟨n - 1, by omega⟩
      simp only [ancestors, ancestorsWithin, hparent]
      rw [ih p hp (by omega), ih p hp (by omega)]

/-- The ancestors of a node are its parent and the ancestors of its parent. -/
theorem ancestors_of_some (ht : t.Joined) (h : t.parent? n = some p) :
    t.ancestors n = p :: t.ancestors p := by
  have hp := ht.lt_of_parent? h
  obtain ⟨m, rfl⟩ : ∃ m, n = m + 1 := ⟨n - 1, by omega⟩
  rw [ancestors, ancestorsWithin, h]
  exact congrArg (p :: ·) (ht.ancestorsWithin_eq (by omega))

theorem pathTo_zero (ht : t.Joined) : t.pathTo 0 = [0] := by
  rw [pathTo, ancestors_of_none ht.parent?_zero]
  rfl

/-- The path to a node is the path to its parent and the node. -/
theorem pathTo_of_some (ht : t.Joined) (h : t.parent? n = some p) :
    t.pathTo n = t.pathTo p ++ [n] := by
  rw [pathTo, pathTo, ht.ancestors_of_some h, List.reverse_cons]

/-- Every way starts at the document and ends at its node. -/
theorem exists_pathTo (ht : t.Joined) (hn : n < t.size) :
    ∃ l, t.pathTo n = 0 :: l ∧ l.getLastD 0 = n := by
  refine ht.upward (P := fun n => ∃ l, t.pathTo n = 0 :: l ∧ l.getLastD 0 = n)
    ⟨[], ht.pathTo_zero, rfl⟩ ?_ hn
  rintro n p hparent ⟨l, hl, -⟩
  refine ⟨l ++ [n], ?_, by simp⟩
  rw [ht.pathTo_of_some hparent, hl]
  rfl

/-- The root of every node is the document. -/
theorem root_eq_zero (ht : t.Joined) (hn : n < t.size) : t.root n = 0 := by
  refine ht.upward (P := fun n => t.root n = 0) ?_ ?_ hn
  · rw [root, ancestors_of_none ht.parent?_zero]
    rfl
  · intro n p hparent ih
    rwa [root, ht.ancestors_of_some hparent, List.getLastD_cons]

/-! ### The way down -/

/-- What holds of every node that it holds of all nodes right below of holds of all nodes. -/
theorem downwardBelow (ht : t.Joined) {P : Nat → Prop}
    (hstep : ∀ n, (∀ c, t.parent? c = some n → P c) → P n) (n : Nat) : P n := by
  induction hk : t.size - n using Nat.strongRecOn generalizing n with
  | _ k ih =>
    refine hstep n fun c hparent => ?_
    have hlt := ht.lt_of_parent? hparent
    have hsize := ht.lt_size c n hparent
    exact ih (t.size - c) (by omega) c rfl

/-- What holds of every node whose children it holds of holds of all nodes. -/
theorem downward (ht : t.Joined) {P : Nat → Prop}
    (hstep : ∀ n, (∀ c ∈ t.children n, P c) → P n) (n : Nat) : P n :=
  ht.downwardBelow (fun n ih => hstep n fun c hc => ih c ((ht.mem_children n c).mp hc).1) n

private theorem descendantsWithin_eq (ht : t.Joined) {levels : Nat} (h : t.size ≤ n + levels) :
    t.descendantsWithin levels n = (t.children n).flatMap fun c => c :: t.descendants c := by
  have hstable : ∀ n levels levels', t.size ≤ n + levels → t.size ≤ n + levels' →
      t.descendantsWithin levels n = t.descendantsWithin levels' n := by
    refine ht.downward fun n ih levels levels' h h' => ?_
    rcases Nat.lt_or_ge n t.size with hn | hn
    · obtain ⟨k, rfl⟩ : ∃ k, levels = k + 1 := ⟨levels - 1, by omega⟩
      obtain ⟨k', rfl⟩ : ∃ k, levels' = k + 1 := ⟨levels' - 1, by omega⟩
      simp only [descendantsWithin]
      refine List.flatMap_congr fun c hc => congrArg (c :: ·) ?_
      have hlt := ht.lt_of_parent? ((ht.mem_children n c).mp hc).1
      exact ih c hc k k' (by omega) (by omega)
    · have hnone := ht.children_of_size_le hn
      cases levels <;> cases levels' <;> simp [descendantsWithin, hnone]
  rw [hstable n levels (t.size + 1) h (by omega)]
  rfl

/-- The descendants of a node are its children, each with its own descendants. -/
theorem descendants_eq (ht : t.Joined) (n : Nat) :
    t.descendants n = (t.children n).flatMap t.subtree :=
  ht.descendantsWithin_eq (Nat.le_add_left _ _)

/-- From a node down there is the node, and then each child with what is below it. -/
theorem subtree_eq (ht : t.Joined) (n : Nat) :
    t.subtree n = n :: (t.children n).flatMap t.subtree := by
  rw [subtree, ht.descendants_eq]

/-- What is below a child is below the node. -/
theorem mem_subtree_of_child (ht : t.Joined) (hc : c ∈ t.children n) {a : Nat}
    (ha : a ∈ t.subtree c) : a ∈ t.descendants n := by
  rw [ht.descendants_eq]
  exact List.mem_flatMap.mpr ⟨c, hc, ha⟩

/-- What is below a node is what the nodes in its subtree have as children. -/
theorem mem_descendants_iff (ht : t.Joined) {a : Nat} :
    a ∈ t.descendants n ↔ ∃ p ∈ t.subtree n, a ∈ t.children p := by
  refine ht.downward (P := fun n => a ∈ t.descendants n ↔ ∃ p ∈ t.subtree n, a ∈ t.children p) ?_ n
  intro n ih
  constructor
  · intro ha
    rw [ht.descendants_eq, List.mem_flatMap] at ha
    obtain ⟨c, hc, ha⟩ := ha
    rcases List.mem_cons.mp ha with rfl | ha
    · exact ⟨n, List.mem_cons_self, hc⟩
    · obtain ⟨p, hp, hap⟩ := (ih c hc).mp ha
      exact ⟨p, List.mem_cons_of_mem _ (ht.mem_subtree_of_child hc hp), hap⟩
  · rintro ⟨p, hp, ha⟩
    rw [ht.subtree_eq, List.mem_cons, List.mem_flatMap] at hp
    rcases hp with rfl | ⟨c, hc, hp⟩
    · exact ht.mem_subtree_of_child ha List.mem_cons_self
    · exact ht.mem_subtree_of_child hc (List.mem_cons_of_mem _ ((ih c hc).mpr ⟨p, hp, ha⟩))

/-! ### Siblings -/

/-- The siblings of a child are the other children, those in front of it turned round. -/
theorem siblings_of_split (ht : t.Joined) {before after : List Nat}
    (hsplit : t.children p = before ++ n :: after) :
    t.precedingSiblings n = before.reverse ∧ t.followingSiblings n = after := by
  obtain ⟨hparent, hkind⟩ := (ht.mem_children p n).mp (by rw [hsplit]; simp)
  have hnodup := ht.nodup_children p
  rw [hsplit, List.nodup_middle, List.nodup_cons, List.mem_append, not_or] at hnodup
  have hbefore : ∀ a ∈ before, (a != n) = true := by
    intro a ha
    rw [bne_iff_ne]
    rintro rfl
    exact hnodup.1.1 ha
  constructor
  · rw [precedingSiblings, siblings_of_some hkind hparent, hsplit,
      List.takeWhile_append_of_pos hbefore]
    simp
  · rw [followingSiblings, siblings_of_some hkind hparent, hsplit,
      List.dropWhile_append_of_pos hbefore]
    simp

/-- The children of its parent are the siblings in front of a node, the node, and the siblings behind it.
-/
theorem exists_siblings (ht : t.Joined) (hkind : t.kind n ≠ .attribute)
    (h : t.parent? n = some p) :
    ∃ before after, t.children p = before ++ n :: after ∧
      t.precedingSiblings n = before.reverse ∧ t.followingSiblings n = after := by
  obtain ⟨before, after, hsplit⟩ := List.append_of_mem ((ht.mem_children p n).mpr ⟨h, hkind⟩)
  exact ⟨before, after, hsplit, ht.siblings_of_split hsplit⟩

end Joined

namespace Linked

/-- Only a branch has anything below it. -/
theorem isBranch_of_mem_children (ht : t.Linked) (h : c ∈ t.children n) : t.IsBranch n :=
  ht.branch c n ((ht.mem_children n c).mp h).1

/-- Only the document and elements have children. -/
theorem children_of_not_branch (ht : t.Linked) (h : ¬ t.IsBranch n) : t.children n = [] :=
  List.eq_nil_iff_forall_not_mem.mpr fun _ hc => h (ht.isBranch_of_mem_children hc)

/-- An attribute has no children. -/
theorem children_of_attribute (ht : t.Linked) (h : t.kind n = .attribute) : t.children n = [] :=
  ht.children_of_not_branch fun hbranch => hbranch.kind_ne h

end Linked

end TreeQuery.Tree
