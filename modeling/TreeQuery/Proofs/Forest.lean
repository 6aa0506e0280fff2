import Mathlib.Data.List.Induction
import TreeQuery.Forest
import TreeQuery.Proofs.Tree.Preorder

/-!
# Sorting nodes of several documents

In each document the nodes are ordered as they are listed in pre-order, so document order is total.
Sorting takes the documents in the order in which they first occur among the nodes and sorts the
nodes of each one. What comes out is determined by what went in: there is only one list of the same
nodes in which the documents stand in that order and the nodes of each one in document order.
-/

namespace TreeQuery

/-! ### First occurrences -/

section List

variable {α β : Type} [BEq α] [LawfulBEq α] [BEq β] [LawfulBEq β] {l : List α} {a b : α}

private theorem eraseDups_concat :
    (l ++ [a]).eraseDups = if a ∈ l then l.eraseDups else l.eraseDups ++ [a] := by
  rw [List.eraseDups_append, List.removeAll]
  split
  · next h => rw [List.filter_cons_of_neg (by simp [h]), List.filter_nil, List.eraseDups_nil,
      List.append_nil]
  · next h => rw [List.filter_cons_of_pos (by simp [h]), List.filter_nil]; rfl

/-- What is left of a list without repetitions stands in the order of the first occurrences. -/
theorem pairwise_eraseDups (l : List α) :
    l.eraseDups.Pairwise fun a b => l.idxOf a < l.idxOf b := by
  induction l using List.reverseRecOn with
  | nil => exact List.Pairwise.nil
  | append_singleton l a ih =>
    have hkept : l.eraseDups.Pairwise fun x y => (l ++ [a]).idxOf x < (l ++ [a]).idxOf y := by
      refine ih.imp_of_mem fun {x y} hx hy h => ?_
      rwa [List.idxOf_append_of_mem (List.mem_eraseDups.mp hx),
        List.idxOf_append_of_mem (List.mem_eraseDups.mp hy)]
    rw [eraseDups_concat]
    split
    · exact hkept
    · next hnew =>
      refine List.pairwise_append.mpr ⟨hkept, List.pairwise_singleton _ _, fun x hx y hy => ?_⟩
      have hx' := List.mem_eraseDups.mp hx
      rw [List.mem_singleton.mp hy, List.idxOf_append_of_mem hx', List.idxOf_append_of_notMem hnew]
      exact Nat.lt_of_lt_of_le (List.idxOf_lt_length_of_mem hx') (Nat.le_add_right _ _)

private theorem nodup_eraseDups (l : List α) : l.eraseDups.Nodup :=
  (pairwise_eraseDups l).imp fun h heq => by
    rw [heq] at h
    exact Nat.lt_irrefl _ h

private theorem eraseDups_map_eraseDups (l : List α) (f : α → β) :
    (l.eraseDups.map f).eraseDups = (l.map f).eraseDups := by
  induction l using List.reverseRecOn with
  | nil => rfl
  | append_singleton l a ih =>
    have hsame : f a ∈ l.eraseDups.map f ↔ f a ∈ l.map f := by
      simp only [List.mem_map, List.mem_eraseDups]
    rw [eraseDups_concat, List.map_append, List.map_singleton, eraseDups_concat]
    split
    · next hmem => rw [ih, if_pos (List.mem_map_of_mem hmem)]
    · rw [List.map_append, List.map_singleton, eraseDups_concat, ih]
      simp only [hsame]

private theorem eraseDups_map {f : α → β} (hf : ∀ a b, f a = f b → a = b) (l : List α) :
    (l.map f).eraseDups = l.eraseDups.map f := by
  induction l using List.reverseRecOn with
  | nil => rfl
  | append_singleton l a ih =>
    have hsame : f a ∈ l.map f ↔ a ∈ l := by
      rw [List.mem_map]
      exact ⟨fun ⟨b, hb, heq⟩ => hf b a heq ▸ hb, fun ha => ⟨a, ha, rfl⟩⟩
    rw [List.map_append, List.map_singleton, eraseDups_concat, eraseDups_concat, ih]
    simp only [hsame]
    split
    · rfl
    · rw [List.map_append, List.map_singleton]

/-- In a list that is sorted by `k`, what is smaller occurs first. -/
theorem idxOf_lt_idxOf {k : α → Nat} (h : l.Pairwise fun a b => k a ≤ k b) (ha : a ∈ l) (hb : b ∈ l)
    (hlt : k a < k b) : l.idxOf a < l.idxOf b := by
  refine Nat.lt_of_not_le fun hle => ?_
  rcases Nat.lt_or_eq_of_le hle with hback | heq
  · have ha' := List.idxOf_lt_length_of_mem ha
    have hb' := List.idxOf_lt_length_of_mem hb
    have hk := List.pairwise_iff_getElem.mp h _ _ hb' ha' hback
    rw [List.getElem_idxOf, List.getElem_idxOf] at hk
    omega
  · rw [(List.idxOf_inj hb).mp heq] at hlt
    exact Nat.lt_irrefl _ hlt

end List

/-- Sorting by places puts what has a smaller place in front. -/
theorem pairwise_mergeSort_place {α : Type} {l : List α} {le : α → α → Bool}
    {place : α → Nat} (h : ∀ a ∈ l, ∀ b ∈ l, le a b = decide (place a ≤ place b)) :
    (l.mergeSort le).Pairwise fun a b => place a ≤ place b := by
  rw [← List.pairwise_map (f := place) (R := (· ≤ ·)),
    List.map_mergeSort (r := le) (s := fun i j => decide (i ≤ j)) h]
  refine (List.pairwise_mergeSort ?_ ?_ _).imp fun h => of_decide_eq_true h
  · intro i j k hij hjk
    rw [decide_eq_true_iff] at hij hjk ⊢
    exact Nat.le_trans hij hjk
  · intro i j
    rw [Bool.or_eq_true, decide_eq_true_iff, decide_eq_true_iff]
    exact Nat.le_total i j

/-! ### One document -/

namespace Tree

/-- Document order is a strict total order on the nodes of a tree, which is that of the listing in
pre-order. -/
structure IsOrdered (t : Tree) : Prop where
  /-- Only a node and itself are equal, so that no node is before itself. -/
  eq_iff : ∀ a < t.size, ∀ b < t.size, t.compareOrder a b = .eq ↔ a = b
  /-- From the other side the order is the opposite one, so that no two nodes are each before the
  other. -/
  swap : ∀ a < t.size, ∀ b < t.size, t.compareOrder b a = (t.compareOrder a b).swap
  /-- What is before a node is before all that come after this one. -/
  trans : ∀ a < t.size, ∀ b < t.size, ∀ c < t.size,
    t.compareOrder a b = .lt → t.compareOrder b c = .lt → t.compareOrder a c = .lt
  /-- A node is listed right in front of its attributes, each with what is below it, and these in
  front of what its children list. -/
  listing_eq : ∀ n < t.size,
    t.listing n = n :: ((t.attributes n).flatMap t.listing ++ (t.children n).flatMap t.listing)
  /-- Attributes are listed in the order of their creation. -/
  sorted_attributes : ∀ n, (t.attributes n).Pairwise (· < ·)
  /-- Children are listed in the order of their creation. -/
  sorted_children : ∀ n, (t.children n).Pairwise (· < ·)
  /-- Every node is listed once. -/
  perm_preorder : t.preorder.Perm (List.range t.size)
  /-- Two nodes are ordered as their places in the listing. -/
  eq_compare : ∀ a < t.size, ∀ b < t.size,
    t.compareOrder a b = compare (t.preorder.idxOf a) (t.preorder.idxOf b)

private theorem Joined.isOrdered {t : Tree} (ht : t.Joined) : t.IsOrdered where
  eq_iff a ha b hb := by
    rw [ht.compareOrder_eq_compare ha hb, Nat.compare_eq_eq,
      List.idxOf_inj (ht.mem_preorder.mpr ha)]
  swap a ha b hb := by
    rw [ht.compareOrder_eq_compare ha hb, ht.compareOrder_eq_compare hb ha, Nat.compare_swap]
  trans a ha b hb c hc hab hbc := by
    rw [ht.compareOrder_eq_compare ha hb, Nat.compare_eq_lt] at hab
    rw [ht.compareOrder_eq_compare hb hc, Nat.compare_eq_lt] at hbc
    rw [ht.compareOrder_eq_compare ha hc, Nat.compare_eq_lt]
    exact Nat.lt_trans hab hbc
  listing_eq n _ := by rw [ht.listing_eq, below, List.flatMap_append]
  sorted_attributes := ht.sorted_attributes
  sorted_children := ht.sorted_children
  perm_preorder := by
    refine (List.perm_ext_iff_of_nodup ht.nodup_preorder List.nodup_range).mpr fun a => ?_
    rw [ht.mem_preorder, List.mem_range]
  eq_compare a ha b hb := ht.compareOrder_eq_compare ha hb

end Tree

/-! ### Several documents -/

namespace Node

/-- A node that is there. -/
structure IsIn (forest : Forest) (n : Node) : Prop where
  /-- Its document is known. -/
  document : n.document < forest.size
  /-- Its document has a node of this number. -/
  id : n.id < (n.tree forest).size

instance (forest : Forest) (n : Node) : Decidable (n.IsIn forest) :=
  decidable_of_iff (n.document < forest.size ∧ n.id < (n.tree forest).size)
    ⟨fun h => ⟨h.1, h.2⟩, fun h => ⟨h.document, h.id⟩⟩

/-- Whether a node stands before another one when `nodes` are sorted: its document occurs first, or
the documents are the same and it is before the other node there. -/
def Precedes (forest : Forest) (nodes : List Node) (a b : Node) : Prop :=
  let documents := nodes.map (·.document)
  documents.idxOf a.document < documents.idxOf b.document ∨
    a.document = b.document ∧ a.compareOrder forest b = .lt

/-- What sorting makes of `nodes`. -/
structure IsSorting (forest : Forest) (nodes result : List Node) : Prop where
  /-- No node comes out twice. -/
  nodup : result.Nodup
  /-- The nodes that come out are those that went in. -/
  mem_iff : ∀ n, n ∈ result ↔ n ∈ nodes
  /-- The nodes of a document stand together. -/
  together : ∀ d, result.filter (·.document == d) <:+: result
  /-- The documents stand in the order of their first occurrence and the nodes of each one in
  document order. -/
  pairwise : result.Pairwise (Precedes forest nodes)

variable {forest : Forest} {nodes nodes' result result' : List Node} {n a b : Node} {d : Nat}

/-- The document of a node that is there is one of the forest. -/
theorem grown_tree (hforest : ∀ t ∈ forest, t.Grown) (hn : n.IsIn forest) :
    (n.tree forest).Grown := by
  rw [tree, Array.getD_eq_getD_getElem?, Array.getElem?_eq_getElem hn.document]
  exact hforest _ (Array.getElem_mem hn.document)

private theorem root_eq (hforest : ∀ t ∈ forest, t.Grown) (hn : n.IsIn forest) :
    n.root forest = ⟨n.document, 0⟩ := by
  rw [root, (grown_tree hforest hn).joined.root_eq_zero hn.id]

/-- The nodes of one document among some nodes, each once, in document order. -/
def sortedIn (forest : Forest) (nodes : List Node) (d : Nat) : List Node :=
  (nodes.eraseDups.filter (·.document == d)).mergeSort (notAfter forest)

private theorem sorted_eq (hforest : ∀ t ∈ forest, t.Grown) (hnodes : ∀ n ∈ nodes, n.IsIn forest) :
    sorted forest nodes = (nodes.map (·.document)).eraseDups.flatMap (sortedIn forest nodes) := by
  have hroot : ∀ n ∈ nodes.eraseDups, n.root forest = ⟨n.document, 0⟩ :=
    fun n hn => root_eq hforest (hnodes n (List.mem_eraseDups.mp hn))
  have hroots : (nodes.eraseDups.map (·.root forest)).eraseDups =
      (nodes.map (·.document)).eraseDups.map fun d => (⟨d, 0⟩ : Node) := by
    rw [List.map_congr_left (g := (fun d => (⟨d, 0⟩ : Node)) ∘ (·.document)) hroot, ← List.map_map,
      eraseDups_map (fun d e h => congrArg Node.document h), eraseDups_map_eraseDups]
  simp only [sorted, hroots, List.flatMap_map]
  refine List.flatMap_congr fun d _ => congrArg (List.mergeSort · (notAfter forest)) ?_
  refine List.filter_congr fun n hn => ?_
  rw [hroot n hn, Bool.eq_iff_iff, beq_iff_eq, beq_iff_eq, Node.mk.injEq]
  exact and_iff_left rfl

private theorem mem_sortedIn : n ∈ sortedIn forest nodes d ↔ n ∈ nodes ∧ n.document = d := by
  rw [sortedIn, (List.mergeSort_perm _ _).mem_iff, List.mem_filter, List.mem_eraseDups, beq_iff_eq]

private theorem nodup_sortedIn : (sortedIn forest nodes d).Nodup :=
  (List.mergeSort_perm _ _).nodup_iff.mpr ((nodup_eraseDups nodes).filter _)

private theorem compareOrder_of_document (hforest : ∀ t ∈ forest, t.Grown) (ha : a.IsIn forest)
    (hb : b.IsIn forest) (h : a.document = b.document) :
    a.compareOrder forest b =
      compare ((a.tree forest).preorder.idxOf a.id) ((b.tree forest).preorder.idxOf b.id) := by
  have htree : b.tree forest = a.tree forest := congrArg (forest.getD · .empty) h.symm
  rw [compareOrder, if_pos h, htree]
  exact (grown_tree hforest ha).joined.compareOrder_eq_compare ha.id (htree ▸ hb.id)

private theorem eq_of_compareOrder (hforest : ∀ t ∈ forest, t.Grown) (ha : a.IsIn forest)
    (hb : b.IsIn forest) (h : a.document = b.document) (heq : a.compareOrder forest b = .eq) :
    a = b := by
  have htree : b.tree forest = a.tree forest := congrArg (forest.getD · .empty) h.symm
  have hmem := (grown_tree hforest ha).joined.mem_preorder.mpr ha.id
  rw [compareOrder_of_document hforest ha hb h, htree, Nat.compare_eq_eq,
    List.idxOf_inj hmem] at heq
  exact congrArg₂ Node.mk h heq

/-- The nodes of a document are put in document order. -/
theorem pairwise_sortedIn (hforest : ∀ t ∈ forest, t.Grown) (hnodes : ∀ n ∈ nodes, n.IsIn forest) :
    (sortedIn forest nodes d).Pairwise fun a b => a.compareOrder forest b = .lt := by
  let place (n : Node) : Nat := (n.tree forest).preorder.idxOf n.id
  have hplace : ∀ a ∈ sortedIn forest nodes d, ∀ b ∈ sortedIn forest nodes d,
      a.compareOrder forest b = compare (place a) (place b) := by
    intro a ha b hb
    obtain ⟨hamem, hadoc⟩ := mem_sortedIn.mp ha
    obtain ⟨hbmem, hbdoc⟩ := mem_sortedIn.mp hb
    exact compareOrder_of_document hforest (hnodes a hamem) (hnodes b hbmem)
      (hadoc.trans hbdoc.symm)
  have hsorted : (sortedIn forest nodes d).Pairwise fun a b => place a ≤ place b := by
    refine pairwise_mergeSort_place fun a ha b hb => ?_
    rw [notAfter, hplace a ((List.mergeSort_perm _ _).mem_iff.mpr ha) b
      ((List.mergeSort_perm _ _).mem_iff.mpr hb), Bool.eq_iff_iff, bne_iff_ne, decide_eq_true_iff]
    exact Nat.compare_ne_gt
  refine (hsorted.and nodup_sortedIn).imp_of_mem fun {a b} ha hb h => ?_
  obtain ⟨hamem, hadoc⟩ := mem_sortedIn.mp ha
  obtain ⟨hbmem, hbdoc⟩ := mem_sortedIn.mp hb
  have hne : a.compareOrder forest b ≠ .eq := fun heq => h.2 <|
    eq_of_compareOrder hforest (hnodes a hamem) (hnodes b hbmem) (hadoc.trans hbdoc.symm) heq
  rw [hplace a ha b hb] at hne ⊢
  exact Nat.compare_eq_lt.mpr (Nat.lt_of_le_of_ne h.1 fun heq => hne (Nat.compare_eq_eq.mpr heq))

/-- If all nodes have one root, they are sorted by document order. -/
theorem sorted_of_root {r : Node} (hroot : ∀ n ∈ nodes, n.root forest = r) :
    sorted forest nodes = nodes.eraseDups.mergeSort (notAfter forest) := by
  have hroot' : ∀ n ∈ nodes.eraseDups, n.root forest = r := fun n hn => hroot n (List.mem_eraseDups.mp hn)
  rw [sorted]
  generalize nodes.eraseDups = distinct at hroot'
  cases distinct with
  | nil => simp
  | cons n distinct =>
    have hfilter : (n :: distinct).filter (fun n => n.root forest == r) = n :: distinct :=
      List.filter_eq_self.mpr fun m hm => beq_iff_eq.mpr (hroot' m hm)
    have hnone : (distinct.map (·.root forest)).filter (fun m => !m == r) = [] := by
      rw [List.filter_eq_nil_iff]
      intro m hm
      obtain ⟨k, hk, rfl⟩ := List.mem_map.mp hm
      rw [hroot' k (List.mem_cons_of_mem _ hk), beq_self_eq_true]
      decide
    simp only [List.map_cons, List.eraseDups_cons, hroot' n List.mem_cons_self, hnone,
      List.eraseDups_nil, List.flatMap_cons, List.flatMap_nil, List.append_nil, hfilter]

/-- Nodes of one document that are listed in document order are what these nodes are sorted into. -/
theorem sorted_eq_map {ids : List Nat} (ht : (tree forest ⟨d, 0⟩).Joined)
    (hids : ids.Pairwise (tree forest ⟨d, 0⟩).Before) (hsize : ∀ i ∈ ids, i < (tree forest ⟨d, 0⟩).size)
    (hmem : ∀ n, n ∈ nodes ↔ n ∈ ids.map (Node.mk d)) : sorted forest nodes = ids.map (Node.mk d) := by
  have hid {n : Node} (hn : n ∈ nodes) : n.document = d ∧ n.id ∈ ids := by
    obtain ⟨i, hi, rfl⟩ := List.mem_map.mp ((hmem n).mp hn)
    exact ⟨rfl, hi⟩
  have hplace : ∀ a ∈ nodes.eraseDups, ∀ b ∈ nodes.eraseDups,
      notAfter forest a b = decide (ids.idxOf a.id ≤ ids.idxOf b.id) := by
    intro a ha b hb
    obtain ⟨hda, hia⟩ := hid (List.mem_eraseDups.mp ha)
    obtain ⟨hdb, hib⟩ := hid (List.mem_eraseDups.mp hb)
    have htree : a.tree forest = tree forest ⟨d, 0⟩ := congrArg (forest.getD · .empty) hda
    rw [notAfter, compareOrder, if_pos (hda.trans hdb.symm), htree,
      Tree.compareOrder_of_pairwise hids hia hib, Bool.eq_iff_iff, bne_iff_ne, decide_eq_true_iff]
    exact Nat.compare_ne_gt
  have hroot : ∀ n ∈ nodes, n.root forest = ⟨d, 0⟩ := by
    rintro ⟨_, i⟩ hn
    obtain ⟨rfl, hi⟩ := hid hn
    exact congrArg (Node.mk _) (ht.root_eq_zero (hsize i hi))
  have hnodup := Tree.nodup_of_pairwise hids
  have hsorted : (ids.map (Node.mk d)).Pairwise fun a b => ids.idxOf a.id ≤ ids.idxOf b.id :=
    List.pairwise_map.mpr ((Tree.pairwise_idxOf hnodup).imp fun h => Nat.le_of_lt h)
  rw [sorted_of_root hroot]
  refine List.Perm.eq_of_pairwise (fun a b ha hb hab hba => ?_) (pairwise_mergeSort_place hplace) hsorted
    ((List.perm_ext_iff_of_nodup ?_ ?_).mpr fun n => ?_)
  · obtain ⟨i, hi, rfl⟩ := List.mem_map.mp ((hmem a).mp (List.mem_eraseDups.mp
      ((List.mergeSort_perm _ _).mem_iff.mp ha)))
    obtain ⟨j, hj, rfl⟩ := List.mem_map.mp hb
    exact congrArg (Node.mk d) ((List.idxOf_inj hi).mp (Nat.le_antisymm hab hba))
  · exact (List.mergeSort_perm _ _).nodup_iff.mpr (nodup_eraseDups nodes)
  · exact List.Nodup.map (fun i j h => congrArg Node.id h) hnodup
  · rw [(List.mergeSort_perm _ _).mem_iff, List.mem_eraseDups, hmem]

/-- Sorting adds no nodes and leaves none out. -/
theorem mem_sorted (hforest : ∀ t ∈ forest, t.Grown) (hnodes : ∀ n ∈ nodes, n.IsIn forest) :
    n ∈ sorted forest nodes ↔ n ∈ nodes := by
  simp only [sorted_eq hforest hnodes, List.mem_flatMap, List.mem_eraseDups, mem_sortedIn]
  exact ⟨fun ⟨_, _, hn, _⟩ => hn, fun hn => ⟨n.document, List.mem_map_of_mem hn, hn, rfl⟩⟩

/-- The nodes of a document stand together when documents come one after the other. -/
theorem filter_flatMap_infix {documents : List Nat} {within : Nat → List Node}
    (hdocuments : documents.Nodup) (hwithin : ∀ d, ∀ n ∈ within d, n.document = d) (d : Nat) :
    (documents.flatMap within).filter (·.document == d) <:+: documents.flatMap within := by
  have hother {l : List Nat} (hd : d ∉ l) : (l.flatMap within).filter (·.document == d) = [] := by
    rw [List.filter_eq_nil_iff]
    intro n hn heq
    obtain ⟨e, he, hne⟩ := List.mem_flatMap.mp hn
    rw [← eq_of_beq heq, hwithin e n hne] at hd
    exact hd he
  by_cases hd : d ∈ documents
  · obtain ⟨front, back, rfl⟩ := List.append_of_mem hd
    have hsplit := List.nodup_middle.mp hdocuments
    rw [List.nodup_cons, List.mem_append, not_or] at hsplit
    have hsame : (within d).filter (·.document == d) = within d :=
      List.filter_eq_self.mpr fun n hn => beq_iff_eq.mpr (hwithin d n hn)
    rw [List.flatMap_append, List.flatMap_cons, List.filter_append, List.filter_append,
      hother hsplit.1.1, hother hsplit.1.2, hsame, List.nil_append, List.append_nil]
    exact ⟨front.flatMap within, back.flatMap within, List.append_assoc _ _ _⟩
  · rw [hother hd]
    exact List.nil_infix

/-- Sorting does what is asked of it. -/
theorem isSorting_sorted (hforest : ∀ t ∈ forest, t.Grown) (hnodes : ∀ n ∈ nodes, n.IsIn forest) :
    IsSorting forest nodes (sorted forest nodes) := by
  have hdocument (d : Nat) : ∀ n ∈ sortedIn forest nodes d, n.document = d :=
    fun n hn => (mem_sortedIn.mp hn).2
  have hpairwise : (sorted forest nodes).Pairwise (Precedes forest nodes) := by
    rw [sorted_eq hforest hnodes, List.pairwise_flatMap]
    constructor
    · intro d _
      refine (pairwise_sortedIn hforest hnodes).imp_of_mem fun {a b} ha hb h => Or.inr ⟨?_, h⟩
      rw [hdocument d a ha, hdocument d b hb]
    · refine (pairwise_eraseDups _).imp fun {d e} h a ha b hb => Or.inl ?_
      rwa [hdocument d a ha, hdocument e b hb]
  refine ⟨hpairwise.imp fun h heq => ?_, fun n => mem_sorted hforest hnodes, fun d => ?_, hpairwise⟩
  · subst heq
    rcases h with hlt | ⟨-, hlt⟩
    · exact Nat.lt_irrefl _ hlt
    · rw [compareOrder, if_pos rfl, Tree.compareOrder_self] at hlt
      contradiction
  · rw [sorted_eq hforest hnodes]
    exact filter_flatMap_infix (nodup_eraseDups _) hdocument d

/-- No two nodes each stand before the other. -/
theorem Precedes.asymm (hforest : ∀ t ∈ forest, t.Grown) (ha : a.IsIn forest) (hb : b.IsIn forest)
    (h : Precedes forest nodes a b) : ¬Precedes forest nodes b a := by
  rintro (hback | ⟨hsame, hback⟩) <;> rcases h with hlt | ⟨heq, hlt⟩
  · exact Nat.lt_asymm hlt hback
  · rw [heq] at hback
    exact Nat.lt_irrefl _ hback
  · rw [hsame] at hlt
    exact Nat.lt_irrefl _ hlt
  · rw [compareOrder_of_document hforest ha hb heq, Nat.compare_eq_lt] at hlt
    rw [compareOrder_of_document hforest hb ha hsame, Nat.compare_eq_lt] at hback
    exact Nat.lt_asymm hlt hback

namespace IsSorting

/-- There is only one way to sort. -/
theorem unique (hforest : ∀ t ∈ forest, t.Grown) (hnodes : ∀ n ∈ nodes, n.IsIn forest)
    (h : IsSorting forest nodes result) (h' : IsSorting forest nodes result') :
    result = result' := by
  refine List.Perm.eq_of_pairwise (fun a b ha hb hab hba => ?_) h.pairwise h'.pairwise
    ((List.perm_ext_iff_of_nodup h.nodup h'.nodup).mpr fun n => ?_)
  · have ha' := hnodes a ((h.mem_iff a).mp ha)
    have hb' := hnodes b ((h'.mem_iff b).mp hb)
    exact absurd hba (Precedes.asymm hforest ha' hb' hab)
  · rw [h.mem_iff, h'.mem_iff]

/-- What is sorted is a sorting of itself. -/
theorem self (h : IsSorting forest nodes result) : IsSorting forest result result := by
  refine ⟨h.nodup, fun _ => Iff.rfl, h.together, h.pairwise.imp_of_mem fun {a b} ha hb hab => ?_⟩
  refine hab.imp_left fun hlt => idxOf_lt_idxOf (k := (nodes.map (·.document)).idxOf) ?_
    (List.mem_map_of_mem ha) (List.mem_map_of_mem hb) hlt
  rw [List.pairwise_map]
  refine h.pairwise.imp fun {a b} hab => ?_
  rcases hab with hlt | ⟨heq, -⟩
  · exact Nat.le_of_lt hlt
  · exact Nat.le_of_eq (by rw [heq])

/-- A sorting of nodes of one document is one of all lists of these nodes. -/
theorem of_mem_iff (h : IsSorting forest nodes' result) (hmem : ∀ n, n ∈ nodes' ↔ n ∈ nodes)
    (hone : ∀ a ∈ nodes, ∀ b ∈ nodes, a.document = b.document) :
    IsSorting forest nodes result := by
  have hmem' (n : Node) : n ∈ result ↔ n ∈ nodes := (h.mem_iff n).trans (hmem n)
  refine ⟨h.nodup, hmem', h.together, h.pairwise.imp_of_mem fun {a b} ha hb hab => ?_⟩
  have hsame := hone a ((hmem' a).mp ha) b ((hmem' b).mp hb)
  rcases hab with hlt | hab
  · rw [hsame] at hlt
    exact absurd hlt (Nat.lt_irrefl _)
  · exact Or.inr hab

end IsSorting

/-- Sorting nodes of one document gives the same however often and in whatever order they are given. -/
theorem sorted_congr (hforest : ∀ t ∈ forest, t.Grown) (hnodes : ∀ n ∈ nodes, n.IsIn forest)
    (hone : ∀ a ∈ nodes, ∀ b ∈ nodes, a.document = b.document)
    (hmem : ∀ n, n ∈ nodes' ↔ n ∈ nodes) : sorted forest nodes' = sorted forest nodes := by
  have hsorting := isSorting_sorted hforest fun n hn => hnodes n ((hmem n).mp hn)
  exact (hsorting.of_mem_iff hmem hone).unique hforest hnodes (isSorting_sorted hforest hnodes)

/-- Document order is a strict total order on the nodes of a tree and that of the listing in
pre-order, whatever the calls that built the tree append to; if nothing is below an attribute, the
attributes of a node are listed right behind it. Sorting gives every node once, document by document
as they first occur, and the nodes of each one in document order; so it changes nothing when it is
done again, and where there is one document only it does not matter in which order and how often the
nodes were given. -/
theorem sorted_by_document_order {t : Tree} (ht : t.Grown) (hforest : ∀ t ∈ forest, t.Grown)
    (hnodes : ∀ n ∈ nodes, n.IsIn forest) :
    t.IsOrdered ∧
      (t.Built → ∀ n < t.size,
        t.listing n = n :: (t.attributes n ++ (t.children n).flatMap t.listing)) ∧
      IsSorting forest nodes (sorted forest nodes) ∧
      sorted forest (sorted forest nodes) = sorted forest nodes ∧
      ((∀ a ∈ nodes, ∀ b ∈ nodes, a.document = b.document) →
        ∀ nodes', (∀ n, n ∈ nodes' ↔ n ∈ nodes) → sorted forest nodes' = sorted forest nodes) := by
  have hsorting := isSorting_sorted hforest hnodes
  refine ⟨ht.joined.isOrdered, fun hbuilt n _ => hbuilt.linked.listing_eq_children n, hsorting, ?_,
    fun hone nodes' hmem => ?_⟩
  · have hsorted : ∀ n ∈ sorted forest nodes, n.IsIn forest :=
      fun n hn => hnodes n ((hsorting.mem_iff n).mp hn)
    exact (isSorting_sorted hforest hsorted).unique hforest hsorted hsorting.self
  · have hsorting' := isSorting_sorted hforest fun n hn => hnodes n ((hmem n).mp hn)
    exact (hsorting'.of_mem_iff hmem hone).unique hforest hnodes hsorting

/-- Nodes of the catalogue, some of them twice, and of a second document, in which there is a text below
an attribute. -/
theorem sorted_by_document_order_catalogue :
    let noted : Tree :=
      ((Tree.empty.addElement 0 (.simple "note")).addAttribute 1 (.simple "by") "x").addText 2 "new"
    let forest : Forest := #[Tree.catalogue, noted]
    let nodes : List Node := [⟨1, 3⟩, ⟨0, 12⟩, ⟨0, 3⟩, ⟨1, 1⟩, ⟨0, 12⟩, ⟨0, 2⟩]
    let books : List Node := [⟨0, 10⟩, ⟨0, 2⟩, ⟨0, 10⟩]
    (∀ t ∈ forest, t.Grown) ∧ (∀ n ∈ nodes, n.IsIn forest) ∧ (∀ n ∈ books, n.IsIn forest) ∧
      noted.IsOrdered ∧ Tree.catalogue.IsOrdered ∧ Tree.catalogue.Built ∧
      Tree.catalogue.listing 2 = 2 :: (Tree.catalogue.attributes 2 ++
        (Tree.catalogue.children 2).flatMap Tree.catalogue.listing) ∧
      IsSorting forest nodes (sorted forest nodes) ∧
      sorted forest [⟨0, 2⟩, ⟨0, 10⟩] = sorted forest books := by
  intro noted forest nodes books
  have hcatalogue := Tree.built_catalogue.grown
  have hnoted : noted.Grown :=
    .addChild (.addAttribute (.addChild .empty (by decide) (by decide) _ _) (by decide) _ _)
      (by decide) (by decide) _ _
  have hforest : ∀ t ∈ forest, t.Grown := by
    simpa [forest] using And.intro hcatalogue hnoted
  have hnodes : ∀ n ∈ nodes, n.IsIn forest := by decide
  have hbooks : ∀ n ∈ books, n.IsIn forest := by decide
  have hseen := sorted_by_document_order hnoted hforest hnodes
  have hseen' := sorted_by_document_order hcatalogue hforest hbooks
  refine ⟨hforest, hnodes, hbooks, hseen.1, hseen'.1, Tree.built_catalogue,
    hseen'.2.1 Tree.built_catalogue 2 (by decide), hseen.2.2.1,
    hseen'.2.2.2.2 (by decide) _ fun n => ?_⟩
  simp only [books, List.mem_cons, List.not_mem_nil, or_false]
  exact ⟨Or.inr, fun h => h.elim Or.inr fun h => h⟩

end Node

end TreeQuery
