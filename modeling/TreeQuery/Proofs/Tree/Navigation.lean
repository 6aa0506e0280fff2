import TreeQuery.Proofs.Tree.Preorder

/-!
# What can be relied on in a tree

A tree is walked through by going on from a node to its parent, its first child or a sibling. This is what
holds of these steps in every tree that is built by calls, in whatever order the calls come: the way up
ends at the document, the way from sibling to sibling goes through the children of one node and back the
same way, and an attribute is come to only as an attribute of its element. The children of a node, and its
attributes, are those that were appended to it, in the order of the calls.
-/

namespace TreeQuery.Tree

/-! ### Going on step by step -/

/-- Going on by `step` leads through these nodes and comes to an end behind them. -/
inductive Visits (step : Nat → Option Nat) : Option Nat → List Nat → Prop where
  | stop : Visits step none []
  | go {n : Nat} {rest : List Nat} (h : Visits step (step n) rest) : Visits step (some n) (n :: rest)

/-- There is one way to go on. -/
theorem Visits.unique {step : Nat → Option Nat} {start : Option Nat} {nodes nodes' : List Nat}
    (h : Visits step start nodes) (h' : Visits step start nodes') : nodes = nodes' := by
  induction h generalizing nodes' with
  | stop =>
    cases h'
    rfl
  | go _ ih =>
    cases h' with
    | go h' => rw [ih h']

variable {t t' : Tree} {n p c : Nat} {k : NodeKind}

namespace Joined

/-- The way up goes through the nodes above and ends at the document. -/
theorem visits_parent? (ht : t.Joined) (hn : n < t.size) :
    Visits t.parent? (some n) (n :: t.ancestors n) := by
  refine ht.upward (P := fun n => Visits t.parent? (some n) (n :: t.ancestors n)) ?_ ?_ hn
  · rw [ancestors_of_none ht.parent?_zero]
    refine .go ?_
    rw [ht.parent?_zero]
    exact .stop
  · intro n p hparent ih
    rw [ht.ancestors_of_some hparent]
    refine .go ?_
    rwa [hparent]

/-- From one sibling to the next the rest of the children is visited. -/
theorem visits_nextSibling? (ht : t.Joined) {before rest : List Nat}
    (hsplit : t.children p = before ++ rest) : Visits t.nextSibling? rest.head? rest := by
  induction rest generalizing before with
  | nil => exact .stop
  | cons n rest ih =>
    refine .go ?_
    rw [nextSibling?, (ht.siblings_of_split hsplit).2]
    have hsplit' : t.children p = (before ++ [n]) ++ rest := by
      rw [hsplit, List.append_assoc]
      rfl
    exact ih hsplit'

/-- From one sibling to the previous one the children in front are visited, the last of them first. -/
theorem visits_previousSibling? (ht : t.Joined) {before rest : List Nat}
    (hsplit : t.children p = before.reverse ++ rest) : Visits t.previousSibling? before.head? before := by
  induction before generalizing rest with
  | nil => exact .stop
  | cons n before ih =>
    rw [List.reverse_cons, List.append_assoc] at hsplit
    refine .go ?_
    rw [previousSibling?, (ht.siblings_of_split hsplit).1, List.reverse_reverse]
    exact ih hsplit

/-- A node that has siblings is a child, and there are those in front of it and those behind it. -/
theorem exists_split_of_siblings (ht : t.Joined) (h : t.siblings n ≠ []) :
    ∃ p before after, t.children p = before ++ n :: after ∧
      t.precedingSiblings n = before.reverse ∧ t.followingSiblings n = after := by
  have hkind : t.kind n ≠ .attribute := fun hkind => h (siblings_of_attribute hkind)
  obtain ⟨p, hparent⟩ := Option.ne_none_iff_exists'.mp fun hnone => h (siblings_of_none hnone)
  exact ⟨p, ht.exists_siblings hkind hparent⟩

private theorem nextSibling?_eq_some_iff (ht : t.Joined) {a b : Nat} :
    t.nextSibling? a = some b ↔ ∃ p before after, t.children p = before ++ a :: b :: after := by
  constructor
  · intro h
    have hsiblings : t.siblings a ≠ [] := by
      intro hnil
      rw [nextSibling?, followingSiblings, hnil] at h
      contradiction
    obtain ⟨p, before, after, hsplit, -, hfollowing⟩ := ht.exists_split_of_siblings hsiblings
    rw [nextSibling?, hfollowing] at h
    obtain ⟨after, rfl⟩ := List.head?_eq_some_iff.mp h
    exact ⟨p, before, after, hsplit⟩
  · rintro ⟨p, before, after, hsplit⟩
    rw [nextSibling?, (ht.siblings_of_split hsplit).2]
    rfl

private theorem previousSibling?_eq_some_iff (ht : t.Joined) {a b : Nat} :
    t.previousSibling? b = some a ↔ ∃ p before after, t.children p = before ++ a :: b :: after := by
  constructor
  · intro h
    have hsiblings : t.siblings b ≠ [] := by
      intro hnil
      rw [previousSibling?, precedingSiblings, hnil] at h
      contradiction
    obtain ⟨p, before, after, hsplit, hpreceding, -⟩ := ht.exists_split_of_siblings hsiblings
    rw [previousSibling?, hpreceding, List.head?_reverse] at h
    obtain ⟨before, rfl⟩ := List.getLast?_eq_some_iff.mp h
    exact ⟨p, before, after, by rw [hsplit, List.append_assoc]; rfl⟩
  · rintro ⟨p, before, after, hsplit⟩
    have hsplit' : t.children p = (before ++ [a]) ++ b :: after := by
      rw [hsplit, List.append_assoc]
      rfl
    rw [previousSibling?, (ht.siblings_of_split hsplit').1, List.reverse_append]
    rfl

end Joined

namespace Linked

/-- A node is once in the lists of its parent, and in no other. -/
theorem count_below (ht : t.Linked) (q n : Nat) :
    (t.below q).count n = if t.parent? n = some q then 1 else 0 := by
  split
  · next h => exact List.count_eq_one_of_mem (ht.nodup_below q) (ht.mem_below.mpr h)
  · next h => exact List.count_eq_zero.mpr fun hmem => h (ht.mem_below.mp hmem)

end Linked

/-- What the steps from node to node have to do with each other. -/
structure Navigable (t : Tree) : Prop where
  /-- Nothing is above the document. -/
  parent?_zero : t.parent? 0 = none
  /-- A parent was created before what is below it. -/
  parent_lt : ∀ n p, t.parent? n = some p → p < n
  /-- The way up from any node ends, and it ends at the document. -/
  ends_at_document : ∀ n < t.size, ∃ way, Visits t.parent? (some n) way ∧ way.getLast? = some 0
  /-- Every node but the document is in one list of children or of attributes only, which is one of its
  parent, and it is there once. -/
  listed_once : ∀ n < t.size, n ≠ 0 → ∃ p, t.parent? n = some p ∧
    ∀ q, (t.attributes q ++ t.children q).count n = if q = p then 1 else 0
  /-- The document is in no such list. -/
  document_unlisted : ∀ q, 0 ∉ t.attributes q ++ t.children q
  /-- The children of a node are visited from the first one on. -/
  children : ∀ n, Visits t.nextSibling? (t.firstChild? n) (t.children n)
  /-- They are visited back from the last one. -/
  children_back : ∀ n, Visits t.previousSibling? (t.children n).getLast? (t.children n).reverse
  /-- What is the next sibling of a node has this node as its previous sibling. -/
  inverse : ∀ a b, t.nextSibling? a = some b ↔ t.previousSibling? b = some a
  /-- Siblings are children of one node. -/
  siblings : ∀ a b, t.nextSibling? a = some b → ∃ p, a ∈ t.children p ∧ b ∈ t.children p
  /-- The children of a node are those that have it as their parent and are no attributes. -/
  mem_children : ∀ n c, c ∈ t.children n ↔ t.parent? c = some n ∧ t.kind c ≠ .attribute
  /-- The attributes of a node are those that have it as their parent. -/
  mem_attributes : ∀ n a, a ∈ t.attributes n ↔ t.parent? a = some n ∧ t.kind a = .attribute
  /-- An attribute has no siblings. -/
  attribute_siblings : ∀ a, t.kind a = .attribute →
    t.nextSibling? a = none ∧ t.previousSibling? a = none
  /-- No step but the one to the attributes leads to an attribute. -/
  attribute_unreached : ∀ a, t.kind a = .attribute → ∀ n, t.parent? n ≠ some a ∧
    t.firstChild? n ≠ some a ∧ t.nextSibling? n ≠ some a ∧ t.previousSibling? n ≠ some a

private theorem Linked.navigable (ht : t.Linked) : t.Navigable where
  parent?_zero := ht.parent?_zero
  parent_lt n p h := ht.lt_of_parent? h
  ends_at_document n hn := by
    refine ⟨_, ht.visits_parent? hn, ?_⟩
    have hroot := ht.root_eq_zero hn
    rw [root, List.getLastD_eq_getLast?] at hroot
    rw [List.getLast?_cons, hroot]
  listed_once n hn hne := by
    obtain ⟨p, -, hparent⟩ := ht.parent n (Nat.pos_of_ne_zero hne) hn
    refine ⟨p, hparent, fun q => ?_⟩
    have hcount := ht.count_below q n
    simp only [hparent, Option.some.injEq, eq_comm (a := p)] at hcount
    exact hcount
  document_unlisted q hmem := by
    have hparent := ht.mem_below.mp hmem
    rw [ht.parent?_zero] at hparent
    contradiction
  children n := ht.visits_nextSibling? (List.nil_append (t.children n)).symm
  children_back n := by
    have hsplit : t.children n = (t.children n).reverse.reverse ++ [] := by simp
    have hvisits := ht.visits_previousSibling? hsplit
    rwa [List.head?_reverse] at hvisits
  inverse a b := by rw [ht.nextSibling?_eq_some_iff, ht.previousSibling?_eq_some_iff]
  siblings a b h := by
    obtain ⟨p, before, after, hsplit⟩ := ht.nextSibling?_eq_some_iff.mp h
    exact ⟨p, by simp [hsplit], by simp [hsplit]⟩
  mem_children := ht.mem_children
  mem_attributes := ht.mem_attributes
  attribute_siblings a h := by
    simp [nextSibling?, previousSibling?, followingSiblings, precedingSiblings, siblings_of_attribute h]
  attribute_unreached a h n := by
    have hmem (p : Nat) : a ∉ t.children p := fun hmem => ((ht.mem_children p a).mp hmem).2 h
    refine ⟨fun hparent => (ht.branch n a hparent).kind_ne h, fun hfirst => ?_, fun hnext => ?_,
      fun hprevious => ?_⟩
    · exact hmem n (List.mem_of_head? hfirst)
    · obtain ⟨p, before, after, hsplit⟩ := ht.nextSibling?_eq_some_iff.mp hnext
      exact hmem p (by simp [hsplit])
    · obtain ⟨p, before, after, hsplit⟩ := ht.previousSibling?_eq_some_iff.mp hprevious
      exact hmem p (by simp [hsplit])

/-! ### Trees and the calls that build them -/

/-- A call that appends to a tree. -/
inductive Call where
  | addElement (parent : Nat) (name : QName)
  | addText (parent : Nat) (value : String)
  | addComment (parent : Nat) (value : String)
  | addInstruction (parent : Nat) (target : QName) (value : String)
  | addAttribute (owner : Nat) (name : QName) (value : String)
  | addLeaf (parent : Nat) (name : QName) (value : String)

/-- What a call has appended: a node of a kind, and what it is right below. -/
structure Placement where
  /-- The node that was there. -/
  parent : Nat
  /-- The node that is new. -/
  node : Nat
  /-- Its kind. -/
  kind : NodeKind

namespace Call

/-- The node that a call appends to. -/
def parent : Call → Nat
  | addElement parent _ | addText parent _ | addComment parent _ | addInstruction parent _ _
  | addAttribute parent _ _ | addLeaf parent _ _ => parent

/-- The tree behind a call. -/
def apply (t : Tree) : Call → Tree
  | addElement parent name => t.addElement parent name
  | addText parent value => t.addText parent value
  | addComment parent value => t.addComment parent value
  | addInstruction parent target value => t.addInstruction parent target value
  | addAttribute owner name value => t.addAttribute owner name value
  | addLeaf parent name value => t.addLeaf parent name value

/-- What a call appends if so many nodes are there. A leaf is an element with a text below it. -/
def placements (size : Nat) : Call → List Placement
  | addElement parent _ => [⟨parent, size, .element⟩]
  | addText parent _ => [⟨parent, size, .text⟩]
  | addComment parent _ => [⟨parent, size, .comment⟩]
  | addInstruction parent _ _ => [⟨parent, size, .processingInstruction⟩]
  | addAttribute owner _ _ => [⟨owner, size, .attribute⟩]
  | addLeaf parent _ _ => [⟨parent, size, .element⟩, ⟨size, size + 1, .text⟩]

/-- Every call appends to the document or to an element that is there when it is made. -/
def Admissible : Tree → List Call → Prop
  | _, [] => True
  | t, call :: calls => t.IsBranch call.parent ∧ Admissible (apply t call) calls

/-- What so many calls append in turn. -/
def placementsFrom (size : Nat) : List Call → List Placement
  | [] => []
  | call :: calls => call.placements size ++ placementsFrom (size + (call.placements size).length) calls

end Call

/-- The tree that calls make from an empty document. -/
def build (calls : List Call) : Tree := calls.foldl Call.apply empty

/-- What was appended to a node, of such kinds, in the order of the calls. -/
def appendedTo (made : List Placement) (n : Nat) (kinds : NodeKind → Bool) : List Nat :=
  (made.filter fun m => m.parent == n && kinds m.kind).map Placement.node

private theorem appendedTo_concat (made : List Placement) (m : Placement) (n : Nat)
    (kinds : NodeKind → Bool) :
    appendedTo (made ++ [m]) n kinds =
      if n = m.parent ∧ kinds m.kind = true then appendedTo made n kinds ++ [m.node]
      else appendedTo made n kinds := by
  have hchosen : (m.parent == n && kinds m.kind) = true ↔ n = m.parent ∧ kinds m.kind = true := by
    rw [Bool.and_eq_true, beq_iff_eq, @eq_comm Nat m.parent]
  rw [appendedTo, List.filter_append, List.map_append, List.filter_singleton]
  by_cases h : n = m.parent ∧ kinds m.kind = true
  · rw [if_pos h, hchosen.mpr h]
    rfl
  · rw [if_neg h, eq_false_of_ne_true fun hm => h (hchosen.mp hm)]
    exact List.append_nil _

/-- The lists of a tree hold what was appended to each node. -/
structure Records (t : Tree) (made : List Placement) : Prop where
  size : t.size = made.length + 1
  children : ∀ n, t.children n = appendedTo made n (· != .attribute)
  attributes : ∀ n, t.attributes n = appendedTo made n (· == .attribute)

private theorem records_empty : Records empty [] where
  size := rfl
  children n := by
    rw [Tree.children, node_empty]
    rfl
  attributes n := by
    rw [Tree.attributes, node_empty]
    rfl

/-- One more node is one more placement. -/
theorem Records.extends {made : List Placement} (ht : Records t made) (h : Extends t' t p k) :
    Records t' (made ++ [⟨p, t.size, k⟩]) where
  size := by rw [h.size, ht.size, List.length_append, List.length_singleton]
  children n := by
    simp only [h.children, ht.children, appendedTo_concat, bne_iff_ne]
  attributes n := by
    simp only [h.attributes, ht.attributes, appendedTo_concat, beq_iff_eq]

private theorem Records.apply {made : List Placement} (ht : Records t made) {call : Call}
    (h : t.IsBranch call.parent) : Records (call.apply t) (made ++ call.placements t.size) := by
  cases call with
  | addElement parent name => exact ht.extends (extends_addChild h.lt (by decide) _ _)
  | addText parent value => exact ht.extends (extends_addChild h.lt (by decide) _ _)
  | addComment parent value => exact ht.extends (extends_addChild h.lt (by decide) _ _)
  | addInstruction parent target value => exact ht.extends (extends_addChild h.lt (by decide) _ _)
  | addAttribute owner name value => exact ht.extends (extends_addAttribute h.lt _ _)
  | addLeaf parent name value =>
    have helement : Extends (t.addElement parent name) t parent .element :=
      extends_addChild h.lt (by decide) (some name) ""
    have hbranch := isBranch_addElement h.lt name
    have htext := (ht.extends helement).extends
      (extends_addChild (k := .text) hbranch.lt (by decide) none value)
    rw [helement.size, List.append_assoc] at htext
    exact htext

/-- So many calls are recorded in the order in which they are made. -/
theorem Records.foldl {made : List Placement} {calls : List Call} (ht : Records t made)
    (h : Call.Admissible t calls) :
    Records (calls.foldl Call.apply t) (made ++ Call.placementsFrom t.size calls) := by
  induction calls generalizing t made with
  | nil => rwa [Call.placementsFrom, List.append_nil]
  | cons call calls ih =>
    have hcall := ht.apply h.1
    have hcalls := ih hcall h.2
    have hsize : (call.apply t).size = t.size + (call.placements t.size).length := by
      rw [hcall.size, List.length_append, ht.size]
      omega
    rwa [hsize, List.append_assoc] at hcalls

private theorem Built.foldl {calls : List Call} (ht : t.Built) (h : Call.Admissible t calls) :
    (calls.foldl Call.apply t).Built := by
  induction calls generalizing t with
  | nil => exact ht
  | cons call calls ih =>
    refine ih ?_ h.2
    cases call with
    | addElement parent name => exact .addElement ht h.1 name
    | addText parent value => exact .addText ht h.1 value
    | addComment parent value => exact .addComment ht h.1 value
    | addInstruction parent target value => exact .addInstruction ht h.1 target value
    | addAttribute owner name value => exact .addAttribute ht h.1 name value
    | addLeaf parent name value => exact .addLeaf ht h.1 name value

/-- Every tree that calls make can be relied on, as long as each of them appends to the document or to an
element that is there. What stands below a node was appended to it, in the order of the calls. -/
theorem navigable_build (calls : List Call) (h : Call.Admissible empty calls) :
    (build calls).Navigable ∧
    (∀ n, (build calls).children n = appendedTo (Call.placementsFrom 1 calls) n (· != .attribute)) ∧
    ∀ n, (build calls).attributes n = appendedTo (Call.placementsFrom 1 calls) n (· == .attribute) := by
  have hrecords : Records (build calls) (Call.placementsFrom 1 calls) := records_empty.foldl h
  have hbuilt : (build calls).Built := Built.empty.foldl h
  exact ⟨hbuilt.linked.navigable, hrecords.children, hrecords.attributes⟩

/-- Calls that go back to earlier elements. -/
def interleaved : List Call :=
  [.addElement 0 (.simple "a"), .addElement 1 (.simple "b"), .addLeaf 1 (.simple "c") "x",
    .addAttribute 2 (.simple "id") "1", .addElement 2 (.simple "d"), .addComment 1 "y"]

/-- A child that was appended late is the last one of its parent. -/
theorem navigable_build_interleaved :
    Call.Admissible empty interleaved ∧ (build interleaved).Navigable ∧
      (build interleaved).children 1 = [2, 3, 7] ∧ (build interleaved).attributes 2 = [5] := by
  have hadmissible : Call.Admissible empty interleaved :=
    ⟨by decide, by decide, by decide, by decide, by decide, by decide, trivial⟩
  obtain ⟨hnavigable, hchildren, hattributes⟩ := navigable_build interleaved hadmissible
  exact ⟨hadmissible, hnavigable, hchildren 1, hattributes 2⟩

end TreeQuery.Tree
