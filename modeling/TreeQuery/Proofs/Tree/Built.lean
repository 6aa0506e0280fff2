import Mathlib.Data.List.Nodup
import TreeQuery.Tree.Catalogue

/-!
# Trees that are built by calls

A call appends one node below an earlier one. `Grown` says of a tree that it was made in this way, and
`Joined` what the links between its nodes have to do with each other: a list of children or of
attributes holds exactly the nodes that name its owner as their parent. `Built` and `Linked` say the
same of trees in which nodes are appended to the document and to elements only.
-/

namespace TreeQuery.Tree

/-- A node that other nodes can be appended to. -/
structure IsBranch (t : Tree) (n : Nat) : Prop where
  /-- The node is there. -/
  lt : n < t.size
  /-- It is the document or an element. -/
  kind : t.kind n = .document ∨ t.kind n = .element

instance (t : Tree) (n : Nat) : Decidable (t.IsBranch n) :=
  decidable_of_iff (n < t.size ∧ (t.kind n = .document ∨ t.kind n = .element))
    ⟨fun h => ⟨h.1, h.2⟩, fun h => ⟨h.lt, h.kind⟩⟩

/-- A tree that is made from an empty document by calls whose parent is the document or an element. -/
inductive Built : Tree → Prop where
  | empty : Built Tree.empty
  | addElement {t : Tree} {parent : Nat} (ht : Built t) (hp : t.IsBranch parent) (name : QName) :
    Built (t.addElement parent name)
  | addText {t : Tree} {parent : Nat} (ht : Built t) (hp : t.IsBranch parent) (value : String) :
    Built (t.addText parent value)
  | addComment {t : Tree} {parent : Nat} (ht : Built t) (hp : t.IsBranch parent) (value : String) :
    Built (t.addComment parent value)
  | addInstruction {t : Tree} {parent : Nat} (ht : Built t) (hp : t.IsBranch parent)
      (target : QName) (value : String) : Built (t.addInstruction parent target value)
  | addAttribute {t : Tree} {owner : Nat} (ht : Built t) (hp : t.IsBranch owner) (name : QName)
      (value : String) : Built (t.addAttribute owner name value)
  | addLeaf {t : Tree} {parent : Nat} (ht : Built t) (hp : t.IsBranch parent) (name : QName)
      (value : String) : Built (t.addLeaf parent name value)

/-- A tree that is made from an empty document by calls whose parent is any node that is there, of
whatever kind. Every call appends a child, or it appends an attribute. -/
inductive Grown : Tree → Prop where
  | empty : Grown Tree.empty
  | addChild {t : Tree} {parent : Nat} {kind : NodeKind} (ht : Grown t) (hp : parent < t.size)
      (hkind : kind ≠ .attribute) (name : Option QName) (value : String) :
    Grown (t.addChild parent kind name value)
  | addAttribute {t : Tree} {owner : Nat} (ht : Grown t) (hp : owner < t.size) (name : QName)
      (value : String) : Grown (t.addAttribute owner name value)

/-- The catalogue is built by calls. -/
theorem built_catalogue : catalogue.Built := by
  -- The last call stands first.
  refine .addLeaf (.addElement (.addInstruction
    (.addLeaf (.addLeaf (.addAttribute (.addElement (.addComment
    (.addLeaf (.addLeaf (.addAttribute (.addAttribute (.addElement (.addElement .empty
      ?_ _) ?_ _) ?_ _ _) ?_ _ _) ?_ _ _) ?_ _ _) ?_ _) ?_ _) ?_ _ _) ?_ _ _) ?_ _ _) ?_ _ _) ?_ _)
      ?_ _ _
  all_goals decide

/-! ### One more node -/

/-- What distinguishes a tree from one with a node less, which is the last one below `p`. -/
structure Extends (t' t : Tree) (p : Nat) (k : NodeKind) : Prop where
  size : t'.size = t.size + 1
  kind : ∀ n, t'.kind n = if n = t.size then k else t.kind n
  parent? : ∀ n, t'.parent? n = if n = t.size then some p else t.parent? n
  children : ∀ n, t'.children n =
    if n = p ∧ k ≠ .attribute then t.children n ++ [t.size] else t.children n
  attributes : ∀ n, t'.attributes n =
    if n = p ∧ k = .attribute then t.attributes n ++ [t.size] else t.attributes n

/-- A node that is not there counts as a document with nothing below it. -/
theorem node_of_size_le {t : Tree} {n : Nat} (h : t.size ≤ n) : t.node n = { kind := .document } := by
  rw [node, Array.getD_eq_getD_getElem?, Array.getElem?_eq_none h]
  rfl

/-- Nothing is below the document of an empty tree. -/
theorem node_empty (n : Nat) : Tree.empty.node n = { kind := .document } := by
  cases n with
  | zero => rfl
  | succ n => exact node_of_size_le (Nat.succ_le_succ (Nat.zero_le n))

/-- What is known of the nodes when one of them is changed and another one is put behind them. -/
theorem node_modify_push {t : Tree} {p : Nat} (hp : p < t.size) (f : NodeData → NodeData)
    (d : NodeData) (n : Nat) :
    node ⟨(t.nodes.modify p f).push d⟩ n =
      if n = t.size then d else if n = p then f (t.node n) else t.node n := by
  simp only [node, size, Array.getD_eq_getD_getElem?, Array.getElem?_push, Array.size_modify,
    Array.getElem?_modify] at hp ⊢
  split
  · rfl
  · by_cases hn : n = p
    · subst hn
      rw [if_pos rfl, if_pos rfl, Array.getElem?_eq_getElem hp]
      rfl
    · rw [if_neg (Ne.symm hn), if_neg hn]

/-- Putting a node behind the others and its number into a list of its parent. -/
theorem extends_modify_push {t : Tree} {p : Nat} (hp : p < t.size) {f : NodeData → NodeData}
    {d : NodeData} (hkind : ∀ e, (f e).kind = e.kind) (hparent : ∀ e, (f e).parent = e.parent)
    (hchildren : ∀ e, (f e).children.toList =
      if d.kind ≠ .attribute then e.children.toList ++ [t.size] else e.children.toList)
    (hattributes : ∀ e, (f e).attributes.toList =
      if d.kind = .attribute then e.attributes.toList ++ [t.size] else e.attributes.toList)
    (hd : d.parent = some p ∧ d.children = #[] ∧ d.attributes = #[]) :
    Extends ⟨(t.nodes.modify p f).push d⟩ t p d.kind := by
  obtain ⟨hdparent, hdchildren, hdattributes⟩ := hd
  have hnode := node_modify_push hp f d
  have hnew : t.node t.size = { kind := .document } := node_of_size_le (Nat.le_refl _)
  have hne : t.size ≠ p := Nat.ne_of_gt hp
  constructor
  · simp [size]
  · intro n
    rw [Tree.kind, hnode]
    split
    · rfl
    · split <;> simp [hkind, Tree.kind]
  · intro n
    rw [Tree.parent?, hnode]
    split
    · exact hdparent
    · split <;> simp [hparent, Tree.parent?]
  · intro n
    rw [Tree.children, Tree.children, hnode]
    split
    · next hn => simp [hn, hne, hnew, hdchildren]
    · split <;> simp_all
  · intro n
    rw [Tree.attributes, Tree.attributes, hnode]
    split
    · next hn => simp [hn, hne, hnew, hdattributes]
    · split <;> simp_all

/-- A child is one more node. -/
theorem extends_addChild {t : Tree} {p : Nat} (hp : p < t.size) {k : NodeKind}
    (hk : k ≠ .attribute) (name : Option QName) (value : String) :
    Extends (t.addChild p k name value) t p k :=
  extends_modify_push (d := { kind := k, name, value, parent := some p }) hp (fun _ => rfl)
    (fun _ => rfl) (fun _ => by simp [hk]) (fun _ => by simp [hk]) ⟨rfl, rfl, rfl⟩

/-- An attribute is one more node. -/
theorem extends_addAttribute {t : Tree} {p : Nat} (hp : p < t.size) (name : QName) (value : String) :
    Extends (t.addAttribute p name value) t p .attribute :=
  extends_modify_push (d := { kind := .attribute, name := some name, value, parent := some p }) hp
    (fun _ => rfl) (fun _ => rfl) (fun _ => by simp) (fun _ => by simp) ⟨rfl, rfl, rfl⟩

/-- The branches of a tree are branches of one with a node more. -/
theorem Extends.isBranch {t' t : Tree} {p n : Nat} {k : NodeKind} (h : Extends t' t p k)
    (hn : t.IsBranch n) : t'.IsBranch n := by
  refine ⟨by rw [h.size]; exact Nat.lt_succ_of_lt hn.lt, ?_⟩
  rw [h.kind, if_neg (Nat.ne_of_lt hn.lt)]
  exact hn.kind

/-- An element that is appended is a branch. -/
theorem isBranch_addElement {t : Tree} {p : Nat} (hp : p < t.size) (name : QName) :
    (t.addElement p name).IsBranch t.size := by
  have helement : Extends (t.addElement p name) t p .element :=
    extends_addChild hp (by decide) (some name) ""
  refine ⟨by rw [helement.size]; exact Nat.lt_succ_self _, ?_⟩
  rw [helement.kind, if_pos rfl]
  exact Or.inr rfl

/-- What holds of the empty document and is kept by one more node holds of all trees that are
built. No call makes another document. -/
theorem Built.induction {P : Tree → Prop} (hempty : P Tree.empty)
    (hextends : ∀ {t' t : Tree} {p : Nat} {k : NodeKind}, P t → t.IsBranch p → k ≠ .document →
      Extends t' t p k → P t') {t : Tree} (ht : Built t) : P t := by
  induction ht with
  | empty => exact hempty
  | addElement _ hp name ih =>
    exact hextends ih hp (by decide) (extends_addChild hp.lt (by decide) (some name) "")
  | addText _ hp value ih =>
    exact hextends ih hp (by decide) (extends_addChild hp.lt (by decide) none value)
  | addComment _ hp value ih =>
    exact hextends ih hp (by decide) (extends_addChild hp.lt (by decide) none value)
  | addInstruction _ hp target value ih =>
    exact hextends ih hp (by decide) (extends_addChild hp.lt (by decide) (some target) value)
  | addAttribute _ hp name value ih =>
    exact hextends ih hp (by decide) (extends_addAttribute hp.lt name value)
  | @addLeaf t p _ hp name value ih =>
    have helement : Extends (t.addElement p name) t p .element :=
      extends_addChild hp.lt (by decide) (some name) ""
    have hbranch := isBranch_addElement hp.lt name
    exact hextends (hextends ih hp (by decide) helement) hbranch (by decide)
      (extends_addChild hbranch.lt (by decide) none value)

/-- Only the first node is a document. -/
theorem Built.eq_zero_of_document {t : Tree} (ht : Built t) {n : Nat} (hn : n < t.size)
    (h : t.kind n = .document) : n = 0 := by
  revert n
  refine ht.induction (P := fun t => ∀ {n}, n < t.size → t.kind n = .document → n = 0) ?_ ?_
  · intro n hn _
    exact Nat.lt_one_iff.mp hn
  · intro t' t p k ih _ hk h n hn hkind
    rw [h.size] at hn
    rw [h.kind] at hkind
    split at hkind
    · exact absurd hkind hk
    · exact ih (by omega) hkind

/-! ### Links -/

/-- What the links between the nodes of a tree have to do with each other. -/
structure Joined (t : Tree) : Prop where
  /-- There is a document node. -/
  pos : 0 < t.size
  /-- It is no attribute. -/
  kind_zero : t.kind 0 = .document
  /-- Nothing is above it. -/
  parent?_zero : t.parent? 0 = none
  /-- Every other node is below one that was created before it. -/
  parent : ∀ n, 0 < n → n < t.size → ∃ p < n, t.parent? n = some p
  /-- Only nodes that are there have parents. -/
  lt_size : ∀ n p, t.parent? n = some p → n < t.size
  /-- The children of a node are the nodes below it that are no attributes. -/
  mem_children : ∀ n c, c ∈ t.children n ↔ t.parent? c = some n ∧ t.kind c ≠ .attribute
  /-- The attributes of a node are the nodes below it that are attributes. -/
  mem_attributes : ∀ n a, a ∈ t.attributes n ↔ t.parent? a = some n ∧ t.kind a = .attribute
  /-- Children stand in the order of their creation. -/
  sorted_children : ∀ n, (t.children n).Pairwise (· < ·)
  /-- Attributes stand in the order of their creation. -/
  sorted_attributes : ∀ n, (t.attributes n).Pairwise (· < ·)

/-- What they have to do with each other if nothing is below an attribute, a text or the like. -/
structure Linked (t : Tree) : Prop extends Joined t where
  /-- Every parent is the document or an element. -/
  branch : ∀ n p, t.parent? n = some p → t.IsBranch p

/-- The empty document is linked. -/
theorem linked_empty : Linked Tree.empty := by
  have hparent (n : Nat) : Tree.empty.parent? n = none := by rw [parent?, node_empty]
  have hchildren (n : Nat) : Tree.empty.children n = [] := by rw [children, node_empty]
  have hattributes (n : Nat) : Tree.empty.attributes n = [] := by rw [attributes, node_empty]
  refine ⟨⟨Nat.one_pos, rfl, rfl, fun n hn hlt => absurd hlt (Nat.not_lt.mpr hn), ?_, ?_, ?_, ?_, ?_⟩, ?_⟩
  all_goals simp [hparent, hchildren, hattributes]

/-- A list of nodes below `n`, to which the new node is put if that is where it belongs. -/
theorem mem_extended {l : List Nat} {s p n c : Nat} {P Q : Prop} [Decidable Q]
    (hl : c ∈ l ↔ P) (hs : s ∉ l) :
    (c ∈ if n = p ∧ Q then l ++ [s] else l) ↔ if c = s then n = p ∧ Q else P := by
  by_cases hc : c = s
  · subst hc
    split <;> simp_all
  · split <;> simp_all

private theorem sorted_extended {l : List Nat} {s : Nat} {Q : Prop} [Decidable Q]
    (hl : l.Pairwise (· < ·)) (hs : ∀ a ∈ l, a < s) :
    (if Q then l ++ [s] else l).Pairwise (· < ·) := by
  split
  · rw [List.pairwise_append]
    refine ⟨hl, List.pairwise_singleton _ _, fun a ha b hb => ?_⟩
    rw [List.mem_singleton.mp hb]
    exact hs a ha
  · exact hl

/-- A joined tree with one more node is joined. -/
theorem Joined.extends {t' t : Tree} {p : Nat} {k : NodeKind} (ht : t.Joined)
    (hp : p < t.size) (h : Extends t' t p k) : t'.Joined := by
  have hzero : 0 ≠ t.size := Nat.ne_of_lt ht.pos
  have hchildren (n : Nat) : ∀ c ∈ t.children n, c < t.size :=
    fun c hc => ht.lt_size c n ((ht.mem_children n c).mp hc).1
  have hattributes (n : Nat) : ∀ a ∈ t.attributes n, a < t.size :=
    fun a ha => ht.lt_size a n ((ht.mem_attributes n a).mp ha).1
  have hnew {l : List Nat} (h : ∀ a ∈ l, a < t.size) : t.size ∉ l :=
    fun hmem => Nat.lt_irrefl _ (h _ hmem)
  constructor
  · rw [h.size]
    exact Nat.succ_pos _
  · rw [h.kind, if_neg hzero]
    exact ht.kind_zero
  · rw [h.parent?, if_neg hzero]
    exact ht.parent?_zero
  · intro n hn hlt
    rw [h.size] at hlt
    rw [h.parent?]
    split
    · next heq => exact ⟨p, heq ▸ hp, rfl⟩
    · exact ht.parent n hn (by omega)
  · intro n q hq
    rw [h.parent?] at hq
    rw [h.size]
    split at hq
    · omega
    · exact Nat.lt_succ_of_lt (ht.lt_size n q hq)
  · intro n c
    rw [h.children, h.parent?, h.kind, mem_extended (ht.mem_children n c) (hnew (hchildren n))]
    split <;> simp [eq_comm]
  · intro n a
    rw [h.attributes, h.parent?, h.kind,
      mem_extended (ht.mem_attributes n a) (hnew (hattributes n))]
    split <;> simp [eq_comm]
  · intro n
    rw [h.children]
    exact sorted_extended (ht.sorted_children n) (hchildren n)
  · intro n
    rw [h.attributes]
    exact sorted_extended (ht.sorted_attributes n) (hattributes n)

/-- A linked tree with one more node is linked, if it is below the document or an element. -/
theorem Linked.extends {t' t : Tree} {p : Nat} {k : NodeKind} (ht : t.Linked)
    (hp : t.IsBranch p) (h : Extends t' t p k) : t'.Linked := by
  refine ⟨ht.toJoined.extends hp.lt h, fun n q hq => ?_⟩
  rw [h.parent?] at hq
  split at hq
  · rw [← Option.some.inj hq]
    exact h.isBranch hp
  · exact h.isBranch (ht.branch n q hq)

/-- No child is listed twice. -/
theorem Joined.nodup_children {t : Tree} (ht : t.Joined) (n : Nat) : (t.children n).Nodup :=
  (ht.sorted_children n).imp Nat.ne_of_lt

/-- No attribute is listed twice. -/
theorem Joined.nodup_attributes {t : Tree} (ht : t.Joined) (n : Nat) : (t.attributes n).Nodup :=
  (ht.sorted_attributes n).imp Nat.ne_of_lt

/-- The links of a tree fit together whatever the calls append to. -/
theorem Grown.joined {t : Tree} (ht : Grown t) : t.Joined := by
  induction ht with
  | empty => exact linked_empty.toJoined
  | addChild _ hp hkind name value ih => exact ih.extends hp (extends_addChild hp hkind name value)
  | addAttribute _ hp name value ih => exact ih.extends hp (extends_addAttribute hp name value)

/-- The links of a tree that is built fit together. -/
theorem Built.linked {t : Tree} (ht : Built t) : t.Linked :=
  ht.induction linked_empty fun ht hp _ h => ht.extends hp h

/-- A tree that is built has grown. -/
theorem Built.grown {t : Tree} (ht : Built t) : t.Grown := by
  induction ht with
  | empty => exact .empty
  | addElement _ hp name ih => exact .addChild ih hp.lt (by decide) _ _
  | addText _ hp value ih => exact .addChild ih hp.lt (by decide) _ _
  | addComment _ hp value ih => exact .addChild ih hp.lt (by decide) _ _
  | addInstruction _ hp target value ih => exact .addChild ih hp.lt (by decide) _ _
  | addAttribute _ hp name value ih => exact .addAttribute ih hp.lt _ _
  | addLeaf _ hp name value ih =>
    exact .addChild (.addChild ih hp.lt (by decide) _ _) (isBranch_addElement hp.lt name).lt (by decide) _ _

end TreeQuery.Tree
