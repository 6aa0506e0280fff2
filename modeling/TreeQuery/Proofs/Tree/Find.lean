import TreeQuery.Proofs.Tree.Axes

/-!
# Finding an element by its name

A search by name goes through the nodes as they were created. So it finds an element exactly if there
is one of that name below the document, and of several the one that was created first. That is the
first one in document order if every call appends to a node on the way down to the last one, as where
a document is built from its beginning to its end. A call that goes back to an earlier element can
put a node in front of others that were created before it, and then another one may be found.
-/

namespace TreeQuery.Tree

/-- What a search by name looks for. -/
def isElementNamed (t : Tree) (localName : String) (n : Nat) : Bool :=
  t.kind n == .element && (t.name? n).any fun name => name.localName == localName

/-- Each node on the way down to `n` is the last child of the one above it. -/
def IsOpen (t : Tree) (n : Nat) : Prop :=
  ∀ a ∈ t.pathTo n, ∀ b ∈ t.parent? a, (t.children b).getLast? = some a

instance (t : Tree) (n : Nat) : Decidable (t.IsOpen n) :=
  inferInstanceAs (Decidable (∀ a ∈ t.pathTo n, ∀ b ∈ t.parent? a, (t.children b).getLast? = some a))

/-- A tree that is made from an empty document by calls that append children to open nodes only.
Where an attribute is appended makes no difference. -/
inductive DepthFirst : Tree → Prop where
  | empty : DepthFirst Tree.empty
  | addChild {t : Tree} {parent : Nat} {kind : NodeKind} (ht : DepthFirst t)
      (hp : t.IsBranch parent) (hopen : t.IsOpen parent) (hkind : kind ≠ .attribute)
      (name : Option QName) (value : String) : DepthFirst (t.addChild parent kind name value)
  | addAttribute {t : Tree} {owner : Nat} (ht : DepthFirst t) (hp : t.IsBranch owner) (name : QName)
      (value : String) : DepthFirst (t.addAttribute owner name value)

variable {t t' : Tree} {n p a : Nat} {k : NodeKind} {localName : String}

private theorem find?_eq_find?_range (t : Tree) (localName : String) :
    t.find? localName = (List.range t.size).find? (t.isElementNamed localName) := rfl

/-! ### What is found -/

namespace Linked

private theorem mem_descendants_zero (ht : t.Linked) :
    a ∈ t.descendants 0 ↔ a < t.size ∧ t.kind a ≠ .attribute ∧ a ≠ 0 := by
  have hlists := ht.listsNodes_subtree
  have hzero : 0 ∉ t.descendants 0 := (List.nodup_cons.mp hlists.nodup).1
  constructor
  · intro ha
    obtain ⟨hlt, hkind⟩ := (hlists.mem_iff a).mp (List.mem_cons_of_mem 0 ha)
    exact ⟨hlt, hkind, fun heq => hzero (heq ▸ ha)⟩
  · rintro ⟨hlt, hkind, hne⟩
    exact (List.mem_cons.mp ((hlists.mem_iff a).mpr ⟨hlt, hkind⟩)).resolve_left hne

private theorem mem_descendants_of_isElementNamed (ht : t.Linked) (hn : n < t.size)
    (h : t.isElementNamed localName n = true) : n ∈ t.descendants 0 := by
  have hkind : t.kind n = .element := eq_of_beq (Bool.and_eq_true_iff.mp h).1
  refine ht.mem_descendants_zero.mpr ⟨hn, by rw [hkind]; decide, ?_⟩
  rintro rfl
  rw [ht.kind_zero] at hkind
  contradiction

/-- Nothing is found exactly if nothing below the document has the name. -/
theorem find?_eq_none_iff (ht : t.Linked) :
    t.find? localName = none ↔ ∀ m ∈ t.descendants 0, t.isElementNamed localName m = false := by
  simp only [find?_eq_find?_range, List.find?_eq_none, List.mem_range, Bool.not_eq_true]
  constructor
  · exact fun h m hm => h m (ht.mem_descendants_zero.mp hm).1
  · intro h m hm
    by_contra hnamed
    rw [Bool.not_eq_false] at hnamed
    exact absurd (h m (ht.mem_descendants_of_isElementNamed hm hnamed)) (by simp [hnamed])

/-- Of the elements below the document that have the name the one with the least number is found. -/
theorem find?_eq_some_iff (ht : t.Linked) :
    t.find? localName = some n ↔
      n ∈ t.descendants 0 ∧ t.isElementNamed localName n = true ∧
        ∀ m ∈ t.descendants 0, t.isElementNamed localName m = true → n ≤ m := by
  rw [find?_eq_find?_range, List.find?_range_eq_some, List.mem_range]
  constructor
  · rintro ⟨hnamed, hlt, hleast⟩
    refine ⟨ht.mem_descendants_of_isElementNamed hlt hnamed, hnamed, fun m _ hm => ?_⟩
    by_contra hlt
    have hmiss := hleast m (Nat.not_le.mp hlt)
    rw [hm] at hmiss
    contradiction
  · rintro ⟨hmem, hnamed, hleast⟩
    refine ⟨hnamed, (ht.mem_descendants_zero.mp hmem).1, fun m hm => ?_⟩
    rw [Bool.not_eq_true']
    by_contra hmatch
    rw [Bool.not_eq_false] at hmatch
    have hlt := Nat.lt_trans hm (ht.mem_descendants_zero.mp hmem).1
    exact Nat.not_le.mpr hm (hleast m (ht.mem_descendants_of_isElementNamed hlt hmatch) hmatch)

/-- The first one in document order is found exactly if none that is behind it was created before
it. -/
theorem find?_eq_find?_descendants_iff (ht : t.Linked) :
    t.find? localName = (t.descendants 0).find? (t.isElementNamed localName) ↔
      ∀ n ∈ (t.descendants 0).find? (t.isElementNamed localName),
        ∀ m ∈ t.descendants 0, t.isElementNamed localName m = true → n ≤ m := by
  cases hfirst : (t.descendants 0).find? (t.isElementNamed localName) with
  | none =>
    rw [List.find?_eq_none] at hfirst
    simpa [ht.find?_eq_none_iff] using hfirst
  | some n =>
    have hmem := List.mem_of_find?_eq_some hfirst
    have hnamed := List.find?_some hfirst
    rw [ht.find?_eq_some_iff]
    simp [hmem, hnamed]

end Linked

/-! ### Appending to an open node -/

private theorem Joined.le_of_mem_subtree (ht : t.Joined) (n : Nat) (ha : a ∈ t.subtree n) : n ≤ a := by
  revert ha
  refine ht.downward (P := fun n => a ∈ t.subtree n → n ≤ a) (fun n ih ha => ?_) n
  rw [ht.subtree_eq, List.mem_cons, List.mem_flatMap] at ha
  rcases ha with rfl | ⟨c, hc, hac⟩
  · exact Nat.le_refl a
  · exact Nat.le_trans (Nat.le_of_lt (ht.lt_of_parent? ((ht.mem_children n c).mp hc).1)) (ih c hc hac)

/-- On the way down to an open node all nodes are open. -/
theorem IsOpen.of_parent? (ht : t.Joined) (hopen : t.IsOpen n) (h : t.parent? n = some p) :
    t.IsOpen p := by
  intro a ha
  refine hopen a ?_
  rw [ht.pathTo_of_some h]
  exact List.mem_append_left _ ha

/-- The children of the parent of an open node: it is the last of them. -/
theorem IsOpen.children_eq (hopen : t.IsOpen n) (h : t.parent? n = some p) :
    ∃ earlier, t.children p = earlier ++ [n] := by
  have hlast := hopen n (by simp [pathTo]) p h
  exact ⟨_, (List.dropLast_append_getLast? n hlast).symm⟩

namespace Extends

/-- What is below a node stays the same unless a child is appended there. -/
theorem subtree_eq (h : Extends t' t p k) (ht : t.Joined) (ht' : t'.Joined) (n : Nat)
    (hn : p ∈ t.subtree n → k = .attribute) : t'.subtree n = t.subtree n := by
  revert hn
  refine ht.downward (P := fun n => (p ∈ t.subtree n → k = .attribute) →
    t'.subtree n = t.subtree n) (fun n ih hn => ?_) n
  have hsame : t'.children n = t.children n := by
    rw [h.children, if_neg]
    rintro ⟨rfl, hk⟩
    exact hk (hn List.mem_cons_self)
  rw [ht'.subtree_eq, ht.subtree_eq, hsame]
  refine congrArg (n :: ·) (List.flatMap_congr fun c hc => ih c hc fun hmem => hn ?_)
  exact List.mem_cons_of_mem n (ht.mem_subtree_of_child hc hmem)

private theorem subtree_parent (h : Extends t' t p k) (ht : t.Joined) (ht' : t'.Joined) (hp : p < t.size)
    (hk : k ≠ .attribute) : t'.subtree p = t.subtree p ++ [t.size] := by
  have hnew : t'.subtree t.size = [t.size] := by
    rw [ht'.subtree_eq, h.children, if_neg fun heq => Nat.ne_of_gt hp heq.1,
      ht.children_of_size_le (Nat.le_refl _)]
    rfl
  have hchildren : (t.children p).flatMap t'.subtree = (t.children p).flatMap t.subtree := by
    refine List.flatMap_congr fun c hc => h.subtree_eq ht ht' c fun hmem => ?_
    have hlt := ht.lt_of_parent? ((ht.mem_children p c).mp hc).1
    exact absurd (ht.le_of_mem_subtree c hmem) (Nat.not_le.mpr hlt)
  rw [ht'.subtree_eq, ht.subtree_eq, h.children, if_pos ⟨rfl, hk⟩, List.flatMap_append, hchildren,
    List.flatMap_singleton, hnew, List.cons_append]

/-- What is the last node below the parent is the last one below every node on the way down to it. -/
theorem subtree_of_isOpen (h : Extends t' t p k) (ht : t.Linked) (ht' : t'.Joined) (hn : n < t.size)
    (hopen : t.IsOpen n) (hmem : p ∈ t.subtree n)
    (hsubtree : t'.subtree n = t.subtree n ++ [t.size]) :
    t'.subtree 0 = t.subtree 0 ++ [t.size] := by
  revert hopen hmem hsubtree
  refine ht.upward (P := fun n => t.IsOpen n → p ∈ t.subtree n →
    t'.subtree n = t.subtree n ++ [t.size] → t'.subtree 0 = t.subtree 0 ++ [t.size]) ?_ ?_ hn
  · exact fun _ _ hsubtree => hsubtree
  intro n q hparent ih hopen hmem hsubtree
  obtain ⟨earlier, hchildren⟩ := hopen.children_eq hparent
  have hlt : q < p :=
    Nat.lt_of_lt_of_le (ht.lt_of_parent? hparent) (ht.le_of_mem_subtree n hmem)
  have hq : t.subtree q = q :: (earlier.flatMap t.subtree ++ t.subtree n) := by
    rw [ht.subtree_eq, hchildren, List.flatMap_append, List.flatMap_singleton]
  -- The parent is below `n`, so it is not below the children in front of `n`.
  have hearlier : earlier.flatMap t'.subtree = earlier.flatMap t.subtree := by
    have hnodup := nodup_of_pairwise (ht.pairwise_subtree q)
    rw [hq, List.nodup_cons, List.nodup_append] at hnodup
    refine List.flatMap_congr fun c hc => h.subtree_eq ht.toJoined ht' c fun hpc => ?_
    exact absurd rfl (hnodup.2.2.2 p (List.mem_flatMap.mpr ⟨c, hc, hpc⟩) p hmem)
  refine ih (hopen.of_parent? ht.toJoined hparent) ?_ ?_
  · rw [hq]
    exact List.mem_cons_of_mem q (List.mem_append_right _ hmem)
  · rw [ht'.subtree_eq, h.children, if_neg fun heq => Nat.ne_of_lt hlt heq.1, hchildren,
      List.flatMap_append, List.flatMap_singleton, hearlier, hsubtree, hq, List.cons_append,
      List.append_assoc]

/-- A child of an open node is behind all others. -/
theorem subtree_zero (h : Extends t' t p k) (ht : t.Linked) (ht' : t'.Joined) (hp : p < t.size)
    (hopen : t.IsOpen p) (hk : k ≠ .attribute) : t'.subtree 0 = t.subtree 0 ++ [t.size] :=
  h.subtree_of_isOpen ht ht' hp hopen List.mem_cons_self
    (h.subtree_parent ht.toJoined ht' hp hk)

end Extends

/-! ### Trees that are built from the beginning to the end -/

namespace DepthFirst

private theorem linked (ht : t.DepthFirst) : t.Linked := by
  induction ht with
  | empty => exact linked_empty
  | addChild _ hp _ hkind name value ih => exact ih.extends hp (extends_addChild hp.lt hkind name value)
  | addAttribute _ hp name value ih => exact ih.extends hp (extends_addAttribute hp.lt name value)

/-- The nodes are created in document order. -/
theorem sorted_subtree (ht : t.DepthFirst) : (t.subtree 0).Pairwise (· < ·) := by
  induction ht with
  | empty => decide
  | @addChild t parent kind ht hp hopen hkind name value ih =>
    have hextends := extends_addChild hp.lt hkind name value
    have hlinked := ht.linked
    rw [hextends.subtree_zero hlinked (hlinked.toJoined.extends hp.lt hextends) hp.lt hopen hkind,
      List.pairwise_append]
    refine ⟨ih, List.pairwise_singleton _ _, fun a ha b hb => ?_⟩
    rw [List.mem_singleton.mp hb]
    exact ((hlinked.listsNodes_subtree.mem_iff a).mp ha).1
  | @addAttribute t owner ht hp name value ih =>
    have hextends := extends_addAttribute hp.lt name value
    have hjoined := ht.linked.toJoined
    rwa [hextends.subtree_eq hjoined (hjoined.extends hp.lt hextends) 0 fun _ => rfl]

/-- The first element of a name in document order is found. -/
theorem find?_eq_find?_descendants (ht : t.DepthFirst) (localName : String) :
    t.find? localName = (t.descendants 0).find? (t.isElementNamed localName) := by
  have hsorted : (t.descendants 0).Pairwise (· < ·) := (List.pairwise_cons.mp ht.sorted_subtree).2
  rw [ht.linked.find?_eq_find?_descendants_iff]
  intro n hfirst m hm hnamed
  obtain ⟨-, front, back, hsplit, hmiss⟩ := List.find?_eq_some_iff_append.mp hfirst
  rw [hsplit, List.mem_append, List.mem_cons] at hm
  rcases hm with hm | rfl | hm
  · exact absurd hnamed (by simpa using hmiss m hm)
  · exact Nat.le_refl m
  · rw [hsplit, List.pairwise_append, List.pairwise_cons] at hsorted
    exact Nat.le_of_lt (hsorted.2.1.1 m hm)

end DepthFirst

/-- The catalogue is built from its beginning to its end. -/
theorem depthFirst_catalogue : catalogue.DepthFirst := by
  -- The last call stands first, and a leaf is made by two calls.
  refine .addChild (.addChild (.addChild (.addChild
    (.addChild (.addChild (.addChild (.addChild (.addAttribute (.addChild (.addChild
    (.addChild (.addChild (.addChild (.addChild (.addAttribute (.addAttribute (.addChild (.addChild
      .empty ?_ ?_ ?_ _ _) ?_ ?_ ?_ _ _) ?_ _ _) ?_ _ _) ?_ ?_ ?_ _ _) ?_ ?_ ?_ _ _) ?_ ?_ ?_ _ _)
      ?_ ?_ ?_ _ _) ?_ ?_ ?_ _ _) ?_ ?_ ?_ _ _) ?_ _ _) ?_ ?_ ?_ _ _) ?_ ?_ ?_ _ _) ?_ ?_ ?_ _ _)
      ?_ ?_ ?_ _ _) ?_ ?_ ?_ _ _) ?_ ?_ ?_ _ _) ?_ ?_ ?_ _ _) ?_ ?_ ?_ _ _
  all_goals decide

/-- Two elements `x`, of which the one below `b` was created after the one behind `b`. -/
def revisited : Tree :=
  (((empty.addElement 0 (.simple "a")).addElement 1 (.simple "b")).addElement 1
    (.simple "x")).addElement 2 (.simple "x")

/-- Where a call goes back to an earlier element, the first element in document order may have been
created after another one, which is found in its stead. -/
theorem find?_revisited :
    revisited.Built ∧ revisited.descendants 0 = [1, 2, 4, 3] ∧ revisited.find? "x" = some 3 ∧
      (revisited.descendants 0).find? (revisited.isElementNamed "x") = some 4 := by
  refine ⟨?_, by decide, by decide, by decide⟩
  refine .addElement (.addElement (.addElement (.addElement .empty ?_ _) ?_ _) ?_ _) ?_ _
  all_goals decide

end TreeQuery.Tree
