import TreeQuery.Proofs.Tree.Preorder
import TreeQuery.Tree.Axes

/-!
# What the axes visit

The nodes of a tree that are no attributes, in document order, are those that a node is behind, the
node with what is below it, and those that follow. Those that it is behind are its ancestors and the
nodes that precede it. So these axes share the tree out among them; and each axis visits nodes in
document order or, if it goes back, against it.
-/

namespace TreeQuery.Tree

open scoped List

/-- A list that holds every node that is no attribute, and each of them once. -/
structure ListsNodes (t : Tree) (l : List Nat) : Prop where
  nodup : l.Nodup
  mem_iff : ∀ a, a ∈ l ↔ a < t.size ∧ t.kind a ≠ .attribute

private theorem ListsNodes.of_perm {t : Tree} {l l' : List Nat} (h : t.ListsNodes l)
    (hperm : l'.Perm l) :
    t.ListsNodes l' :=
  ⟨hperm.nodup_iff.mpr h.nodup, fun a => hperm.mem_iff.trans (h.mem_iff a)⟩

variable {t : Tree} {n p : Nat}

namespace Joined

/-! ### Nodes that are there -/

private theorem exists_parent_of_attribute
    (ht : t.Joined) (hn : n < t.size) (hkind : t.kind n = .attribute) :
    ∃ p, t.parent? n = some p := by
  have hpos : 0 < n := by
    refine Nat.pos_of_ne_zero fun hzero => ?_
    rw [hzero, ht.kind_zero] at hkind
    contradiction
  obtain ⟨p, -, hp⟩ := ht.parent n hpos hn
  exact ⟨p, hp⟩

private theorem lt_size_of_mem_ancestors (ht : t.Joined) (hn : n < t.size) :
    ∀ a ∈ t.ancestors n, a < t.size := by
  refine ht.upward (P := fun n => ∀ a ∈ t.ancestors n, a < t.size) ?_ (fun n p hparent ih => ?_) hn
  · rw [ancestors_of_none ht.parent?_zero]
    exact List.forall_mem_nil _
  · rw [ht.ancestors_of_some hparent, List.forall_mem_cons]
    exact ⟨ht.lt_size_of_parent? hparent, ih⟩

private theorem lt_size_of_mem_subtree (ht : t.Joined) (hn : n < t.size) :
    ∀ a ∈ t.subtree n, a < t.size :=
  fun _ ha => ht.lt_size_of_mem_listing hn ((ht.subtree_sublist_listing n).subset ha)

private theorem lt_size_of_mem_siblings (ht : t.Joined) : ∀ a ∈ t.siblings n, a < t.size := by
  intro a ha
  by_cases hkind : t.kind n = .attribute
  · rw [siblings_of_attribute hkind] at ha
    exact absurd ha List.not_mem_nil
  · cases hparent : t.parent? n with
    | none =>
      rw [siblings_of_none hparent] at ha
      exact absurd ha List.not_mem_nil
    | some p =>
      rw [siblings_of_some hkind hparent] at ha
      exact ht.lt_size a p ((ht.mem_children p a).mp ha).1

private theorem lt_size_of_mem_followingSiblings (ht : t.Joined) :
    ∀ a ∈ t.followingSiblings n, a < t.size :=
  fun a ha => ht.lt_size_of_mem_siblings a
    (((List.tail_sublist _).trans (List.dropWhile_sublist _)).subset ha)

private theorem lt_size_of_mem_precedingSiblings (ht : t.Joined) :
    ∀ a ∈ t.precedingSiblings n, a < t.size :=
  fun a ha => ht.lt_size_of_mem_siblings a ((List.takeWhile_sublist _).subset (List.mem_reverse.mp ha))

private theorem lt_size_of_mem_followingTree (ht : t.Joined) : ∀ a ∈ t.followingTree n, a < t.size := by
  intro a ha
  obtain ⟨_, -, s, hs, hmem⟩ : ∃ b ∈ n :: t.ancestors n, ∃ s ∈ t.followingSiblings b, a ∈ t.subtree s := by
    simpa only [followingTree, List.mem_flatMap] using ha
  exact ht.lt_size_of_mem_subtree (ht.lt_size_of_mem_followingSiblings s hs) a hmem

private theorem lt_size_of_mem_precedingTree (ht : t.Joined) : ∀ a ∈ t.precedingTree n, a < t.size := by
  intro a ha
  obtain ⟨_, -, s, hs, hmem⟩ : ∃ b ∈ n :: t.ancestors n, ∃ s ∈ t.precedingSiblings b, a ∈ t.subtree s := by
    simpa only [precedingTree, List.mem_flatMap, List.mem_reverse] using ha
  exact ht.lt_size_of_mem_subtree (ht.lt_size_of_mem_precedingSiblings s hs) a hmem

/-- From a node that is there an axis leads to nodes that are there. -/
theorem lt_size_of_mem_along (ht : t.Joined) (hn : n < t.size) (axis : Axis) :
    ∀ a ∈ t.along axis n, a < t.size := by
  have hsubtree := ht.lt_size_of_mem_subtree hn
  have hancestors := ht.lt_size_of_mem_ancestors hn
  match axis with
  | .child => exact fun a ha => ht.lt_size a n ((ht.mem_children n a).mp ha).1
  | .descendant => exact (List.forall_mem_cons.mp hsubtree).2
  | .descendantOrSelf => exact hsubtree
  | .parent => exact fun a ha => ht.lt_size_of_parent? (Option.mem_toList.mp ha)
  | .ancestor => exact hancestors
  | .ancestorOrSelf => exact List.forall_mem_cons.mpr ⟨hn, hancestors⟩
  | .followingSibling => exact ht.lt_size_of_mem_followingSiblings
  | .precedingSibling => exact ht.lt_size_of_mem_precedingSiblings
  | .following =>
    by_cases hkind : t.kind n = .attribute
    · obtain ⟨p, hp⟩ := ht.exists_parent_of_attribute hn hkind
      simp only [along, following, if_pos hkind, hp, List.forall_mem_append]
      exact ⟨(List.forall_mem_cons.mp (ht.lt_size_of_mem_subtree (ht.lt_size_of_parent? hp))).2,
        ht.lt_size_of_mem_followingTree⟩
    · simp only [along, following, if_neg hkind]
      exact ht.lt_size_of_mem_followingTree
  | .preceding =>
    by_cases hkind : t.kind n = .attribute
    · obtain ⟨p, hp⟩ := ht.exists_parent_of_attribute hn hkind
      simp only [along, preceding, if_pos hkind, hp]
      exact ht.lt_size_of_mem_precedingTree
    · simp only [along, preceding, if_neg hkind]
      exact ht.lt_size_of_mem_precedingTree
  | .attribute =>
    simp only [along]
    split
    · exact fun a ha => ht.lt_size a n ((ht.mem_attributes n a).mp ha).1
    · exact List.forall_mem_nil _
  | .self => exact List.forall_mem_singleton.mpr hn

end Joined

namespace Linked

/-! ### Subtrees -/

/-- What is below a node without attributes is what is listed there without them. -/
theorem subtree_eq_filter (ht : t.Linked) (hkind : t.kind n ≠ .attribute) :
    t.subtree n = (t.listing n).filter fun a => t.kind a ≠ .attribute := by
  revert hkind
  refine ht.downward (P := fun n => t.kind n ≠ .attribute →
    t.subtree n = (t.listing n).filter fun a => t.kind a ≠ .attribute) (fun n ih hkind => ?_) n
  have hattributes : (t.attributes n).filter (fun a => t.kind a ≠ .attribute) = [] := by
    rw [List.filter_eq_nil_iff]
    intro a ha
    simp [((ht.mem_attributes n a).mp ha).2]
  rw [ht.subtree_eq, ht.listing_eq_children, List.filter_cons_of_pos (by simpa using hkind),
    List.filter_append, hattributes, List.nil_append, List.filter_flatMap]
  exact congrArg (n :: ·) (List.flatMap_congr fun c hc => ih c hc ((ht.mem_children n c).mp hc).2)

/-- The nodes from the document down are all nodes that are no attributes. -/
theorem listsNodes_subtree (ht : t.Linked) : t.ListsNodes (t.subtree 0) := by
  have hzero : t.kind 0 ≠ .attribute := by
    rw [ht.kind_zero]
    decide
  rw [ht.subtree_eq_filter hzero]
  refine ⟨ht.nodup_preorder.filter _, fun a => ?_⟩
  rw [List.mem_filter, decide_eq_true_eq]
  exact and_congr_left fun _ => ht.mem_preorder

private theorem followingTree_zero (ht : t.Linked) : t.followingTree 0 = [] := by
  simp [followingTree, ancestors_of_none ht.parent?_zero, followingSiblings,
    siblings_of_none ht.parent?_zero]

private theorem precedingTree_zero (ht : t.Linked) : t.precedingTree 0 = [] := by
  simp [precedingTree, ancestors_of_none ht.parent?_zero, precedingSiblings,
    siblings_of_none ht.parent?_zero]

private theorem followingTree_of_some (ht : t.Linked) (h : t.parent? n = some p) :
    t.followingTree n = (t.followingSiblings n).flatMap t.subtree ++ t.followingTree p := by
  rw [followingTree, ht.ancestors_of_some h, List.flatMap_cons]
  rfl

private theorem precedingTree_of_some (ht : t.Linked) (h : t.parent? n = some p) :
    t.precedingTree n =
      (t.precedingSiblings n).flatMap (fun s => (t.subtree s).reverse) ++ t.precedingTree p := by
  rw [precedingTree, ht.ancestors_of_some h, List.flatMap_cons]
  rfl

/-- In document order a node that is no attribute is behind its ancestors and what precedes it, in
front of what is below it and what follows. -/
theorem exists_front (ht : t.Linked) (hn : n < t.size) (hkind : t.kind n ≠ .attribute) :
    ∃ front, t.subtree 0 = front ++ t.subtree n ++ t.followingTree n ∧
      front ~ t.ancestors n ++ t.precedingTree n ∧ (t.precedingTree n).reverse <+ front := by
  revert hkind
  refine ht.upward (P := fun n => t.kind n ≠ .attribute →
    ∃ front, t.subtree 0 = front ++ t.subtree n ++ t.followingTree n ∧
      front ~ t.ancestors n ++ t.precedingTree n ∧ (t.precedingTree n).reverse <+ front) ?_ ?_ hn
  · intro _
    refine ⟨[], ?_, ?_⟩ <;>
      simp [ht.followingTree_zero, ht.precedingTree_zero, ancestors_of_none ht.parent?_zero]
  · intro n p hparent ih hkind
    obtain ⟨front, hsplit, hperm, hpreceding⟩ := ih (ht.branch n p hparent).kind_ne
    obtain ⟨before, after, hchildren, hbefore, hafter⟩ := ht.exists_siblings hkind hparent
    have hreverse : (t.precedingSiblings n).flatMap (fun s => (t.subtree s).reverse) =
        (before.flatMap t.subtree).reverse := by
      rw [hbefore, List.reverse_flatMap]
      rfl
    rw [ht.followingTree_of_some hparent, ht.precedingTree_of_some hparent,
      ht.ancestors_of_some hparent, hafter, hreverse]
    refine ⟨front ++ p :: before.flatMap t.subtree, ?_, ?_, ?_⟩
    · rw [hsplit, ht.subtree_eq p, hchildren]
      simp
    · calc front ++ p :: before.flatMap t.subtree
          _ ~ p :: (front ++ before.flatMap t.subtree) := List.perm_middle
          _ ~ p :: (t.ancestors p ++ t.precedingTree p ++ before.flatMap t.subtree) :=
            (hperm.append_right _).cons p
          _ ~ p :: (t.ancestors p ++ (before.flatMap t.subtree ++ t.precedingTree p)) := by
            rw [List.append_assoc]
            exact (List.perm_append_comm.append_left _).cons p
          _ ~ p :: t.ancestors p ++ ((before.flatMap t.subtree).reverse ++ t.precedingTree p) :=
            (((List.reverse_perm _).symm.append_right _).append_left _).cons p
    · rw [List.reverse_append, List.reverse_reverse]
      exact hpreceding.append (List.sublist_cons_self _ _)

/-- The axes that see no attributes share the tree out among them. -/
theorem perm_subtree (ht : t.Linked) (hn : n < t.size) (hkind : t.kind n ≠ .attribute) :
    n :: t.ancestors n ++ t.descendants n ++ t.followingTree n ++ t.precedingTree n ~
      t.subtree 0 := by
  obtain ⟨front, hsplit, hperm, -⟩ := ht.exists_front hn hkind
  rw [hsplit]
  calc n :: t.ancestors n ++ t.descendants n ++ t.followingTree n ++ t.precedingTree n
      _ ~ t.precedingTree n ++ (n :: t.ancestors n ++ t.descendants n ++ t.followingTree n) :=
        List.perm_append_comm
      _ ~ t.precedingTree n ++ (t.ancestors n ++ n :: t.descendants n ++ t.followingTree n) :=
        (List.perm_middle.symm.append_right _).append_left _
      _ ~ t.ancestors n ++ t.precedingTree n ++ t.subtree n ++ t.followingTree n := by
        rw [← List.append_assoc, ← List.append_assoc]
        exact (List.perm_append_comm.append_right _).append_right _
      _ ~ front ++ t.subtree n ++ t.followingTree n := (hperm.symm.append_right _).append_right _

private theorem parent_of_attribute (ht : t.Linked) (hn : n < t.size) (hkind : t.kind n = .attribute) :
    ∃ p, t.parent? n = some p ∧ t.IsBranch p := by
  obtain ⟨p, hp⟩ := ht.exists_parent_of_attribute hn hkind
  exact ⟨p, hp, ht.branch n p hp⟩

/-! ### The order along an axis -/

private theorem pairwise_below (ht : t.Linked) (n : Nat) : (t.below n).Pairwise t.Before :=
  (ht.pairwise_before_listing n).imp fun {x y} h =>
    h x (ht.mem_listing_self x) y (ht.mem_listing_self y)

private theorem pairwise_children (ht : t.Linked) (n : Nat) : (t.children n).Pairwise t.Before :=
  (ht.pairwise_below n).sublist (List.sublist_append_right _ _)

private theorem pairwise_attributes (ht : t.Linked) (n : Nat) : (t.attributes n).Pairwise t.Before :=
  (ht.pairwise_below n).sublist (List.sublist_append_left _ _)

/-- The siblings in front of a node, the farthest first, and those behind it are in document order. -/
theorem pairwise_siblings (ht : t.Linked) (n : Nat) :
    (t.precedingSiblings n).reverse.Pairwise t.Before ∧
      (t.followingSiblings n).Pairwise t.Before := by
  have hsiblings : (t.siblings n).Pairwise t.Before := by
    by_cases hkind : t.kind n = .attribute
    · rw [siblings_of_attribute hkind]
      exact List.Pairwise.nil
    · cases hparent : t.parent? n with
      | none =>
        rw [siblings_of_none hparent]
        exact List.Pairwise.nil
      | some p =>
        rw [siblings_of_some hkind hparent]
        exact ht.pairwise_children p
  constructor
  · rw [precedingSiblings, List.reverse_reverse]
    exact hsiblings.sublist (List.takeWhile_sublist _)
  · exact hsiblings.sublist ((List.tail_sublist _).trans (List.dropWhile_sublist _))

/-- What precedes a node that is no attribute, the farthest first, and the node with what is below it
and what follows are in document order. -/
theorem pairwise_front (ht : t.Linked) (hn : n < t.size) (hkind : t.kind n ≠ .attribute) :
    (t.precedingTree n).reverse.Pairwise t.Before ∧
      (t.subtree n ++ t.followingTree n).Pairwise t.Before := by
  obtain ⟨front, hsplit, -, hpreceding⟩ := ht.exists_front hn hkind
  have hpairwise := ht.pairwise_subtree 0
  rw [hsplit, List.append_assoc] at hpairwise
  exact ⟨(hpairwise.sublist (List.sublist_append_left _ _)).sublist hpreceding,
    hpairwise.sublist (List.sublist_append_right _ _)⟩

private theorem pairwise_descendants (ht : t.Linked) (hn : n < t.size) :
    (t.subtree n).Pairwise t.Before := by
  by_cases hkind : t.kind n = .attribute
  · rw [ht.subtree_eq, ht.children_of_attribute hkind]
    exact List.pairwise_singleton _ _
  · exact (ht.pairwise_front hn hkind).2.sublist (List.sublist_append_left _ _)

private theorem pairwise_following (ht : t.Linked) (hn : n < t.size) :
    (t.following n).Pairwise t.Before := by
  by_cases hkind : t.kind n = .attribute
  · obtain ⟨p, hp, hbranch⟩ := ht.parent_of_attribute hn hkind
    rw [following, if_pos hkind, hp]
    exact (ht.pairwise_front hbranch.lt hbranch.kind_ne).2.sublist (List.sublist_cons_self _ _)
  · rw [following, if_neg hkind]
    exact (ht.pairwise_front hn hkind).2.sublist (List.sublist_append_right _ _)

private theorem pairwise_preceding (ht : t.Linked) (hn : n < t.size) :
    (t.preceding n).reverse.Pairwise t.Before := by
  by_cases hkind : t.kind n = .attribute
  · obtain ⟨p, hp, hbranch⟩ := ht.parent_of_attribute hn hkind
    rw [preceding, if_pos hkind, hp]
    exact (ht.pairwise_front hbranch.lt hbranch.kind_ne).1
  · rw [preceding, if_neg hkind]
    exact (ht.pairwise_front hn hkind).1

/-- An axis visits nodes in document order, or against it if it goes back. -/
theorem pairwise_along (ht : t.Linked) (hn : n < t.size) (axis : Axis) :
    (if axis.isReverse then (t.along axis n).reverse else t.along axis n).Pairwise t.Before := by
  match axis with
  | .child => exact ht.pairwise_children n
  | .descendant => exact (ht.pairwise_descendants hn).sublist (List.sublist_cons_self _ _)
  | .descendantOrSelf => exact ht.pairwise_descendants hn
  | .parent =>
    simp only [along, Axis.isReverse, if_true]
    cases t.parent? n with
    | none => exact List.Pairwise.nil
    | some p => exact List.pairwise_singleton _ _
  | .ancestor =>
    have hpath := ht.pairwise_pathTo hn
    rw [pathTo, List.reverse_cons] at hpath
    exact hpath.sublist (List.sublist_append_left _ _)
  | .ancestorOrSelf => exact ht.pairwise_pathTo hn
  | .followingSibling => exact (ht.pairwise_siblings n).2
  | .precedingSibling => exact (ht.pairwise_siblings n).1
  | .following => exact ht.pairwise_following hn
  | .preceding => exact ht.pairwise_preceding hn
  | .attribute =>
    simp only [along, Axis.isReverse, Bool.false_eq_true, if_false]
    split
    · exact ht.pairwise_attributes n
    · exact List.Pairwise.nil
  | .self => exact List.pairwise_singleton _ _

end Linked

/-! ### All axes -/

/-- Seen from a node that is no attribute, the node itself, its ancestors, its descendants, and the
nodes that follow and precede it are all nodes but the attributes, and none of them twice. Seen from
an attribute its ancestors and the nodes that follow and precede it are. An axis visits no node twice,
and goes along document order or, if it is a reverse axis, against it. -/
theorem axes_share_out_tree (ht : t.Built) (hn : n < t.size) :
    (t.kind n ≠ .attribute →
      t.ListsNodes (t.along .self n ++ t.along .ancestor n ++ t.along .descendant n ++
        t.along .following n ++ t.along .preceding n)) ∧
    (t.kind n = .attribute →
      t.ListsNodes (t.along .ancestor n ++ t.along .following n ++ t.along .preceding n)) ∧
    ∀ axis : Axis, (t.along axis n).Nodup ∧
      (t.along axis n).Pairwise fun a b =>
        t.compareOrder a b = if axis.isReverse then .gt else .lt := by
  have hlinked := ht.linked
  refine ⟨fun hkind => ?_, fun hkind => ?_, fun axis => ?_⟩
  · simp only [along, following, preceding, if_neg hkind]
    exact hlinked.listsNodes_subtree.of_perm (hlinked.perm_subtree hn hkind)
  · obtain ⟨p, hp, hbranch⟩ := hlinked.parent_of_attribute hn hkind
    simp only [along, following, preceding, if_pos hkind, hp, hlinked.ancestors_of_some hp]
    rw [← List.append_assoc]
    exact hlinked.listsNodes_subtree.of_perm (hlinked.perm_subtree hbranch.lt hbranch.kind_ne)
  · have hpairwise := hlinked.pairwise_along hn axis
    have hnodup := nodup_of_pairwise hpairwise
    cases hreverse : axis.isReverse with
    | true =>
      rw [hreverse, if_pos rfl] at hpairwise hnodup
      exact ⟨List.nodup_reverse.mp hnodup, (List.pairwise_reverse.mp hpairwise).imp fun h => h.gt⟩
    | false =>
      rw [hreverse, if_neg Bool.false_ne_true] at hpairwise hnodup
      exact ⟨hnodup, hpairwise.imp fun h => h.lt⟩

/-- The catalogue seen from the second title and from the first attribute. -/
theorem axes_share_out_catalogue :
    catalogue.Built ∧ 12 < catalogue.size ∧ catalogue.kind 12 ≠ .attribute ∧
      catalogue.ListsNodes (catalogue.along .self 12 ++ catalogue.along .ancestor 12 ++
        catalogue.along .descendant 12 ++ catalogue.along .following 12 ++
        catalogue.along .preceding 12) ∧
      ((catalogue.along .preceding 12).Pairwise fun a b => catalogue.compareOrder a b = .gt) ∧
    3 < catalogue.size ∧ catalogue.kind 3 = .attribute ∧
      catalogue.ListsNodes (catalogue.along .ancestor 3 ++ catalogue.along .following 3 ++
        catalogue.along .preceding 3) ∧
      ((catalogue.along .following 3).Pairwise fun a b => catalogue.compareOrder a b = .lt) := by
  have htitle : 12 < catalogue.size := by decide
  have hattribute : 3 < catalogue.size := by decide
  have hseen := axes_share_out_tree built_catalogue htitle
  have hseen' := axes_share_out_tree built_catalogue hattribute
  exact ⟨built_catalogue, htitle, by decide, hseen.1 (by decide), (hseen.2.2 .preceding).2,
    hattribute, by decide, hseen'.2.1 (by decide), (hseen'.2.2 .following).2⟩

end TreeQuery.Tree
