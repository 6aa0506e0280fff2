import Mathlib.Data.List.Flatten
import TreeQuery.Proofs.Tree.Walk
import TreeQuery.Tree.Order

/-!
# Document order and the listing in pre-order

The nodes of a tree are listed in pre-order: each in front of its attributes and what is below them,
and these in front of its children and what is below them. Two nodes are compared where the ways down to them part, which
is at two nodes below the same one, and these stand in the listing in the order that is found there.
So the nodes are ordered as they are listed.
-/

namespace TreeQuery.Tree

/-- The nodes right below a node, its attributes in front of its children. -/
def below (t : Tree) (n : Nat) : List Nat := t.attributes n ++ t.children n

/-- The nodes from `n` down within so many levels, each in front of what is below it. -/
def listingWithin (t : Tree) : Nat → Nat → List Nat
  | 0, _ => []
  | levels + 1, n => n :: (t.below n).flatMap (t.listingWithin levels)

/-- The nodes from `n` down in pre-order. -/
def listing (t : Tree) (n : Nat) : List Nat := t.listingWithin t.size n

/-- All nodes in pre-order. -/
def preorder (t : Tree) : List Nat := t.listing 0

/-- The order of two nodes, seen from both of them. -/
structure Before (t : Tree) (a b : Nat) : Prop where
  lt : t.compareOrder a b = .lt
  gt : t.compareOrder b a = .gt

variable {t : Tree} {n p a b c : Nat}

private theorem comparePaths_append (t : Tree) (owner : Nat) (shared xs ys : List Nat) :
    t.comparePaths owner (shared ++ xs) (shared ++ ys) =
      t.comparePaths (shared.getLastD owner) xs ys := by
  induction shared generalizing owner with
  | nil => rfl
  | cons x shared ih =>
    rw [List.cons_append, List.cons_append, comparePaths, if_pos rfl, ih, List.getLastD_cons]

/-- A node stands neither in front of itself nor behind itself. -/
theorem compareOrder_self (t : Tree) (n : Nat) : t.compareOrder n n = .eq := by
  rw [compareOrder]
  split
  · next x xs y ys hx hy =>
    obtain ⟨rfl, rfl⟩ := List.cons.inj (hx.symm.trans hy)
    have hsame := t.comparePaths_append x xs [] []
    rw [List.append_nil] at hsame
    rw [if_pos rfl, hsame, comparePaths]
  · rfl

/-- A list of nodes in document order has none of them twice. -/
theorem nodup_of_pairwise {l : List Nat} (h : l.Pairwise t.Before) : l.Nodup := by
  refine h.imp fun {a b} hab heq => ?_
  have hlt := hab.lt
  rw [← heq, compareOrder_self] at hlt
  contradiction

/-- Without repetitions a list is in the order of its places. -/
theorem pairwise_idxOf {l : List Nat} (h : l.Nodup) :
    l.Pairwise fun x y => l.idxOf x < l.idxOf y := by
  rw [List.pairwise_iff_getElem]
  intro i j hi hj hij
  rwa [h.idxOf_getElem i hi, h.idxOf_getElem j hj]

/-- In a list in document order two nodes are ordered as their places. -/
theorem compareOrder_of_pairwise {l : List Nat} (h : l.Pairwise t.Before) (ha : a ∈ l) (hb : b ∈ l) :
    t.compareOrder a b = compare (l.idxOf a) (l.idxOf b) := by
  have hbefore {x y : Nat} (hx : x ∈ l) (hy : y ∈ l) (hlt : l.idxOf x < l.idxOf y) : t.Before x y := by
    have hxy := List.pairwise_iff_getElem.mp h _ _ (List.idxOf_lt_length_of_mem hx)
      (List.idxOf_lt_length_of_mem hy) hlt
    rwa [List.getElem_idxOf, List.getElem_idxOf] at hxy
  rcases Nat.lt_trichotomy (l.idxOf a) (l.idxOf b) with hlt | heq | hlt
  · rw [(hbefore ha hb hlt).lt, Nat.compare_eq_lt.mpr hlt]
  · rw [(List.idxOf_inj ha).mp heq, compareOrder_self]
    exact (Nat.compare_eq_eq.mpr rfl).symm
  · rw [(hbefore hb ha hlt).gt, Nat.compare_eq_gt.mpr hlt]

namespace Joined

/-- Two nodes are compared from where the ways down to them part. -/
theorem compareOrder_of_pathTo (ht : t.Joined) (hn : n < t.size) {xs ys : List Nat}
    (ha : t.pathTo a = t.pathTo n ++ xs) (hb : t.pathTo b = t.pathTo n ++ ys) :
    t.compareOrder a b = t.comparePaths n xs ys := by
  obtain ⟨l, hl, hlast⟩ := ht.exists_pathTo hn
  rw [compareOrder, ha, hb, hl]
  simp only [List.cons_append, if_true]
  rw [comparePaths_append, hlast]

/-- A node comes before those that the way goes through it to. -/
theorem before_of_pathTo (ht : t.Joined) (hn : n < t.size) {l : List Nat}
    (h : t.pathTo a = t.pathTo n ++ c :: l) : t.Before n a := by
  have hpath := (List.append_nil (t.pathTo n)).symm
  constructor
  · rw [ht.compareOrder_of_pathTo hn hpath h]
    rfl
  · rw [ht.compareOrder_of_pathTo hn h hpath]
    rfl

/-- Where ways part at two nodes below the same one, the order of these is that of what is behind. -/
theorem before_of_compareSiblings (ht : t.Joined) (hn : n < t.size) {x y : Nat} (hne : x ≠ y)
    (h : t.compareSiblings n x y = .lt ∧ t.compareSiblings n y x = .gt) {xs ys : List Nat}
    (ha : t.pathTo a = t.pathTo n ++ x :: xs) (hb : t.pathTo b = t.pathTo n ++ y :: ys) :
    t.Before a b := by
  constructor
  · rw [ht.compareOrder_of_pathTo hn ha hb, comparePaths, if_neg hne, h.1]
  · rw [ht.compareOrder_of_pathTo hn hb ha, comparePaths, if_neg (Ne.symm hne), h.2]

/-- A child comes before its siblings behind it. -/
theorem pairwise_compareSiblings_children (ht : t.Joined) (n : Nat) :
    (t.children n).Pairwise fun x y =>
      t.compareSiblings n x y = .lt ∧ t.compareSiblings n y x = .gt := by
  rw [List.pairwise_iff_forall_sublist]
  intro x y hsub
  obtain ⟨front, back, hsplit, hx, hy⟩ := List.cons_sublist_iff.mp hsub
  obtain ⟨before, between, rfl⟩ := List.append_of_mem hx
  obtain ⟨between', after, rfl⟩ := List.append_of_mem (List.singleton_sublist.mp hy)
  have hfollowing (z : Nat) (u v : List Nat) (h : t.children n = u ++ z :: v) :
      t.kind z ≠ .attribute ∧ t.followingSiblings z = v :=
    ⟨((ht.mem_children n z).mp (by rw [h]; simp)).2, (ht.siblings_of_split h).2⟩
  obtain ⟨hkx, hbehindX⟩ := hfollowing x before (between ++ between' ++ y :: after)
    (by rw [hsplit]; simp)
  obtain ⟨hky, hbehindY⟩ := hfollowing y (before ++ x :: between ++ between') after
    (by rw [hsplit]; simp)
  have hmem : x ∉ after := by
    have hnodup := ht.nodup_children n
    rw [hsplit, List.nodup_append] at hnodup
    exact fun h => hnodup.2.2 x hx x (by simp [h]) rfl
  simp only [compareSiblings, beq_false_of_ne hkx, beq_false_of_ne hky, hbehindX, hbehindY]
  simp [hmem]

/-! ### The listing -/

/-- What is right below a node has it as its parent. -/
theorem mem_below (ht : t.Joined) : c ∈ t.below n ↔ t.parent? c = some n := by
  rw [below, List.mem_append, ht.mem_attributes, ht.mem_children]
  constructor
  · rintro (⟨h, -⟩ | ⟨h, -⟩) <;> exact h
  · intro h
    by_cases hkind : t.kind c = .attribute
    · exact Or.inl ⟨h, hkind⟩
    · exact Or.inr ⟨h, hkind⟩

private theorem listingWithin_eq (ht : t.Joined) (n : Nat) (hn : n < t.size) {levels : Nat}
    (h : t.size ≤ n + levels) : t.listingWithin levels n = t.listing n := by
  have hstable : ∀ n, n < t.size → ∀ levels levels', t.size ≤ n + levels → t.size ≤ n + levels' →
      t.listingWithin levels n = t.listingWithin levels' n := by
    refine ht.downwardBelow fun n ih hn levels levels' h h' => ?_
    obtain ⟨k, rfl⟩ : ∃ k, levels = k + 1 := ⟨levels - 1, by omega⟩
    obtain ⟨k', rfl⟩ : ∃ k, levels' = k + 1 := ⟨levels' - 1, by omega⟩
    simp only [listingWithin]
    refine congrArg (n :: ·) (List.flatMap_congr fun c hc => ?_)
    have hparent := ht.mem_below.mp hc
    have hlt := ht.lt_of_parent? hparent
    exact ih c hparent (ht.lt_size c n hparent) k k' (by omega) (by omega)
  exact hstable n hn levels t.size h (Nat.le_add_left _ _)

/-- A node is listed right in front of what the nodes right below it list. -/
theorem listing_eq (ht : t.Joined) (n : Nat) : t.listing n = n :: (t.below n).flatMap t.listing := by
  obtain ⟨size, hsize⟩ := Nat.exists_eq_succ_of_ne_zero (Nat.ne_of_gt ht.pos)
  rw [listing, hsize, listingWithin]
  refine congrArg (n :: ·) (List.flatMap_congr fun c hc => ?_)
  have hparent := ht.mem_below.mp hc
  have hlt := ht.lt_of_parent? hparent
  exact ht.listingWithin_eq c (ht.lt_size c n hparent) (by omega)

/-- A node is listed from itself down. -/
theorem mem_listing_self (ht : t.Joined) (n : Nat) : n ∈ t.listing n := by
  rw [ht.listing_eq]
  exact List.mem_cons_self

private theorem mem_listing_of_parent (ht : t.Joined) (hp : p ∈ t.listing n)
    (hc : t.parent? c = some p) :
    c ∈ t.listing n := by
  revert hp
  refine ht.downwardBelow (P := fun n => p ∈ t.listing n → c ∈ t.listing n) (fun n ih hp => ?_) n
  rw [ht.listing_eq, List.mem_cons, List.mem_flatMap] at hp ⊢
  rcases hp with rfl | ⟨x, hx, hpx⟩
  · exact Or.inr ⟨c, ht.mem_below.mpr hc, ht.mem_listing_self c⟩
  · exact Or.inr ⟨x, hx, ih x (ht.mem_below.mp hx) hpx⟩

/-- What is listed from a node of the tree down is in the tree. -/
theorem lt_size_of_mem_listing (ht : t.Joined) (hn : n < t.size) (ha : a ∈ t.listing n) :
    a < t.size := by
  revert hn ha
  refine ht.downwardBelow (P := fun n => n < t.size → a ∈ t.listing n → a < t.size)
    (fun n ih hn ha => ?_) n
  rw [ht.listing_eq, List.mem_cons, List.mem_flatMap] at ha
  rcases ha with rfl | ⟨x, hx, hax⟩
  · exact hn
  · have hparent := ht.mem_below.mp hx
    exact ih x hparent (ht.lt_size x n hparent) hax

/-- Every node is listed. -/
theorem mem_preorder (ht : t.Joined) : a ∈ t.preorder ↔ a < t.size := by
  refine ⟨ht.lt_size_of_mem_listing ht.pos, fun ha => ?_⟩
  refine ht.upward (P := fun a => a ∈ t.preorder) (ht.mem_listing_self 0) ?_ ha
  exact fun a p hparent hp => ht.mem_listing_of_parent hp hparent

/-- A subtree is what is listed from its top on with nodes left out. -/
theorem subtree_sublist_listing (ht : t.Joined) (n : Nat) : (t.subtree n).Sublist (t.listing n) := by
  refine ht.downward (P := fun n => (t.subtree n).Sublist (t.listing n)) (fun n ih => ?_) n
  have hchildren := List.Sublist.flatMap_right (t.children n) ih
  rw [ht.subtree_eq, ht.listing_eq, below, List.flatMap_append]
  exact (hchildren.trans (List.sublist_append_right _ _)).cons_cons n

/-! ### Ways down -/

/-- The way down to a node that is listed from `n` on goes through `n`. -/
theorem exists_pathTo_of_mem_listing (ht : t.Joined) (ha : a ∈ t.listing n) :
    ∃ l, t.pathTo a = t.pathTo n ++ l := by
  revert ha
  refine ht.downwardBelow (P := fun n => a ∈ t.listing n → ∃ l, t.pathTo a = t.pathTo n ++ l)
    (fun n ih ha => ?_) n
  rw [ht.listing_eq, List.mem_cons, List.mem_flatMap] at ha
  rcases ha with rfl | ⟨x, hx, hax⟩
  · exact ⟨[], (List.append_nil _).symm⟩
  · have hparent := ht.mem_below.mp hx
    obtain ⟨l, hl⟩ := ih x hparent hax
    refine ⟨x :: l, ?_⟩
    rw [hl, ht.pathTo_of_some hparent, List.append_assoc]
    rfl

private theorem exists_pathTo_below (ht : t.Joined) (hc : c ∈ t.below n) (ha : a ∈ t.listing c) :
    ∃ l, t.pathTo a = t.pathTo n ++ c :: l := by
  obtain ⟨l, hl⟩ := ht.exists_pathTo_of_mem_listing ha
  refine ⟨l, ?_⟩
  rw [hl, ht.pathTo_of_some (ht.mem_below.mp hc), List.append_assoc]
  rfl

/-- The nodes on a way down come one after another. -/
theorem pairwise_pathTo (ht : t.Joined) (hn : n < t.size) : (t.pathTo n).Pairwise t.Before := by
  have hways : (∀ a ∈ t.pathTo n, a < t.size ∧ ∃ l, t.pathTo n = t.pathTo a ++ l) ∧
      (t.pathTo n).Pairwise t.Before := by
    refine ht.upward (P := fun n =>
      (∀ a ∈ t.pathTo n, a < t.size ∧ ∃ l, t.pathTo n = t.pathTo a ++ l) ∧
        (t.pathTo n).Pairwise t.Before) ?_ ?_ hn
    · rw [ht.pathTo_zero]
      refine ⟨fun a ha => ?_, List.pairwise_singleton _ _⟩
      obtain rfl := List.mem_singleton.mp ha
      exact ⟨ht.pos, [], by rw [ht.pathTo_zero, List.append_nil]⟩
    · rintro n p hparent ⟨hall, hpairwise⟩
      have hpath := ht.pathTo_of_some hparent
      refine ⟨fun a ha => ?_, ?_⟩
      · rw [hpath, List.mem_append, List.mem_singleton] at ha
        rcases ha with ha | rfl
        · obtain ⟨hlt, l, hl⟩ := hall a ha
          exact ⟨hlt, l ++ [n], by rw [hpath, hl, List.append_assoc]⟩
        · exact ⟨ht.lt_size a p hparent, [], (List.append_nil _).symm⟩
      · rw [hpath, List.pairwise_append]
        refine ⟨hpairwise, List.pairwise_singleton _ _, fun a ha b hb => ?_⟩
        obtain rfl := List.mem_singleton.mp hb
        obtain ⟨hlt, l, hl⟩ := hall a ha
        rw [hl, List.append_assoc] at hpath
        cases l with
        | nil => exact ht.before_of_pathTo hlt hpath
        | cons c l => exact ht.before_of_pathTo hlt hpath
  exact hways.2

/-! ### Nodes right below the same one -/

/-- The nodes right below a node are compared as they are listed. -/
theorem pairwise_compareSiblings (ht : t.Joined) (n : Nat) :
    (t.below n).Pairwise fun x y =>
      t.compareSiblings n x y = .lt ∧ t.compareSiblings n y x = .gt := by
  rw [below, List.pairwise_append]
  refine ⟨?_, ht.pairwise_compareSiblings_children n, ?_⟩
  · refine (pairwise_idxOf (ht.nodup_attributes n)).imp_of_mem fun {x y} hx hy h => ?_
    have hx' := ((ht.mem_attributes n x).mp hx).2
    have hy' := ((ht.mem_attributes n y).mp hy).2
    simp only [compareSiblings, hx', hy', beq_self_eq_true]
    exact ⟨Nat.compare_eq_lt.mpr h, Nat.compare_eq_gt.mpr h⟩
  · intro x hx y hy
    have hx' := ((ht.mem_attributes n x).mp hx).2
    have hy' := beq_false_of_ne ((ht.mem_children n y).mp hy).2
    simp only [compareSiblings, hx', hy', beq_self_eq_true]
    exact ⟨trivial, trivial⟩

/-- Nothing is listed twice right below a node. -/
theorem nodup_below (ht : t.Joined) (n : Nat) : (t.below n).Nodup := by
  refine (ht.pairwise_compareSiblings n).imp fun {x y} h heq => ?_
  rw [heq, h.2] at h
  exact nomatch h.1

/-- What is listed from a node on comes after it. -/
theorem before_of_mem_listing (ht : t.Joined) (hc : c ∈ t.below n) (ha : a ∈ t.listing c) :
    t.Before n a := by
  obtain ⟨l, hl⟩ := ht.exists_pathTo_below hc ha
  exact ht.before_of_pathTo (ht.lt_size_of_parent? (ht.mem_below.mp hc)) hl

/-- What is listed from two nodes on comes in the order of these nodes. -/
theorem pairwise_before_listing (ht : t.Joined) (n : Nat) :
    (t.below n).Pairwise fun x y => ∀ a ∈ t.listing x, ∀ b ∈ t.listing y, t.Before a b := by
  refine ((ht.pairwise_compareSiblings n).and (ht.nodup_below n)).imp_of_mem ?_
  rintro x y hx hy ⟨hsiblings, hne⟩ a ha b hb
  have hn := ht.lt_size_of_parent? (ht.mem_below.mp hx)
  obtain ⟨xs, hxs⟩ := ht.exists_pathTo_below hx ha
  obtain ⟨ys, hys⟩ := ht.exists_pathTo_below hy hb
  exact ht.before_of_compareSiblings hn hne hsiblings hxs hys

/-- The nodes are listed in document order. -/
theorem pairwise_listing (ht : t.Joined) (n : Nat) : (t.listing n).Pairwise t.Before := by
  refine ht.downwardBelow (P := fun n => (t.listing n).Pairwise t.Before) (fun n ih => ?_) n
  rw [ht.listing_eq, List.pairwise_cons, List.pairwise_flatMap]
  refine ⟨fun a ha => ?_, fun c hc => ih c (ht.mem_below.mp hc), ht.pairwise_before_listing n⟩
  obtain ⟨c, hc, hac⟩ := List.mem_flatMap.mp ha
  exact ht.before_of_mem_listing hc hac

/-- A subtree is in document order. -/
theorem pairwise_subtree (ht : t.Joined) (n : Nat) : (t.subtree n).Pairwise t.Before :=
  (ht.pairwise_listing n).sublist (ht.subtree_sublist_listing n)

private theorem pairwise_preorder (ht : t.Joined) : t.preorder.Pairwise t.Before := ht.pairwise_listing 0

/-- Nothing is listed twice in the pre-order. -/
theorem nodup_preorder (ht : t.Joined) : t.preorder.Nodup := nodup_of_pairwise ht.pairwise_preorder

/-! ### Order as places in the listing -/

/-- Two nodes are ordered as their places in the listing. -/
theorem compareOrder_eq_compare (ht : t.Joined) (ha : a < t.size) (hb : b < t.size) :
    t.compareOrder a b = compare (t.preorder.idxOf a) (t.preorder.idxOf b) :=
  compareOrder_of_pairwise ht.pairwise_preorder (ht.mem_preorder.mpr ha) (ht.mem_preorder.mpr hb)

end Joined

namespace Linked

/-! ### Attributes without anything below them -/

/-- If nothing is below an attribute, no more than itself is listed from it on. -/
theorem listing_of_attribute (ht : t.Linked) (h : t.kind n = .attribute) : t.listing n = [n] := by
  have hbelow : t.below n = [] := List.eq_nil_iff_forall_not_mem.mpr fun c hc =>
    (ht.branch c n (ht.mem_below.mp hc)).kind_ne h
  rw [ht.listing_eq, hbelow]
  rfl

/-- From a node down, its attributes come first, and then each child with what is below it. -/
theorem listing_eq_children (ht : t.Linked) (n : Nat) :
    t.listing n = n :: (t.attributes n ++ (t.children n).flatMap t.listing) := by
  have hattributes : (t.attributes n).flatMap t.listing = t.attributes n := by
    rw [List.flatMap_congr (g := fun a => [a]), List.flatMap_singleton']
    exact fun a ha => ht.listing_of_attribute ((ht.mem_attributes n a).mp ha).2
  rw [ht.listing_eq, below, List.flatMap_append, hattributes]

end Linked

end TreeQuery.Tree
