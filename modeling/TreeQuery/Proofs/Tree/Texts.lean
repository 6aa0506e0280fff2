import TreeQuery.Proofs.Tree.Navigation
import TreeQuery.Tree.Axes

/-!
# The text of a node

The text of a document or of an element is put together on a way down that goes through elements only
and leaves out comments and processing instructions. It comes to the same as walking through everything
below the node and taking the values of the texts, as nothing is below a node of another kind.
-/

namespace TreeQuery.Tree

/-! ### A walk with a stack -/

/-- A walk that keeps the nodes that are still to be visited on a stack: the children of a node are put on
top of it, the first one uppermost. They are found by going on from sibling to sibling. -/
inductive StackWalk (t : Tree) : List Nat → List Nat → Prop where
  | done : StackWalk t [] []
  | visit {n : Nat} {stack children visited : List Nat}
      (hchildren : Visits t.nextSibling? (t.firstChild? n) children)
      (h : StackWalk t (children ++ stack) visited) : StackWalk t (n :: stack) (n :: visited)

variable {t : Tree} {n c : Nat}

/-- The nodes on top of a stack are visited in turn, each with what is below it. -/
theorem StackWalk.flatMap {stack visited nodes : List Nat} (h : StackWalk t stack visited)
    (hnodes : ∀ c ∈ nodes, ∀ {stack visited}, StackWalk t stack visited →
      StackWalk t (c :: stack) (t.subtree c ++ visited)) :
    StackWalk t (nodes ++ stack) (nodes.flatMap t.subtree ++ visited) := by
  induction nodes with
  | nil => exact h
  | cons c nodes ih =>
    rw [List.forall_mem_cons] at hnodes
    rw [List.flatMap_cons, List.append_assoc]
    exact hnodes.1 (ih hnodes.2)

/-- With a node all that is below it is visited before the rest of the stack, by induction down the
tree. -/
theorem Joined.stackWalk_subtree (ht : t.Joined) (n : Nat) {stack visited : List Nat}
    (h : StackWalk t stack visited) : StackWalk t (n :: stack) (t.subtree n ++ visited) := by
  refine ht.downward (P := fun n => ∀ {stack visited}, StackWalk t stack visited →
    StackWalk t (n :: stack) (t.subtree n ++ visited)) (fun n ih stack visited h => ?_) n h
  rw [ht.subtree_eq]
  exact .visit (ht.visits_nextSibling? (List.nil_append (t.children n)).symm) (h.flatMap ih)

/-- What is below a node is visited in document order. -/
theorem Joined.stackWalk_descendants (ht : t.Joined) (n : Nat) :
    StackWalk t (t.children n) (t.descendants n) := by
  have hwalk : StackWalk t (t.children n ++ []) ((t.children n).flatMap t.subtree ++ []) :=
    StackWalk.done.flatMap fun c _ => ht.stackWalk_subtree c
  rwa [List.append_nil, List.append_nil, ← ht.descendants_eq] at hwalk

/-! ### Texts that are visited -/

/-- The values of the texts among nodes, in order. -/
def textValues (t : Tree) (nodes : List Nat) : List String :=
  (nodes.filter fun a => t.kind a == .text).map fun a => (t.node a).value

private theorem textValues_cons_of_text (h : t.kind n = .text) (nodes : List Nat) :
    t.textValues (n :: nodes) = (t.node n).value :: t.textValues nodes := by
  rw [textValues, List.filter_cons_of_pos (by simpa using h), List.map_cons]
  rfl

private theorem textValues_cons_of_ne (h : t.kind n ≠ .text) (nodes : List Nat) :
    t.textValues (n :: nodes) = t.textValues nodes := by
  rw [textValues, List.filter_cons_of_neg (by simpa using h)]
  rfl

private theorem textValues_flatMap (nodes : List Nat) (f : Nat → List Nat) :
    t.textValues (nodes.flatMap f) = nodes.flatMap fun a => t.textValues (f a) := by
  simp only [textValues, List.filter_flatMap, List.map_flatMap]

private theorem descendantsWithin_of_childless (h : t.children n = []) (levels : Nat) :
    t.descendantsWithin levels n = [] := by
  cases levels with
  | zero => rfl
  | succ levels => rw [descendantsWithin, h, List.flatMap_nil]

/-- A child that is no element has nothing below it. -/
theorem Built.children_eq_nil (ht : t.Built) (hc : c ∈ t.children n) (h : t.kind c ≠ .element) :
    t.children c = [] := by
  have hlinked := ht.linked
  have hparent := ((hlinked.mem_children n c).mp hc).1
  refine hlinked.children_of_not_branch fun hbranch => ?_
  have hzero := ht.eq_zero_of_document hbranch.lt (hbranch.kind.resolve_right h)
  rw [hzero, hlinked.parent?_zero] at hparent
  contradiction

private theorem Built.textsWithin_eq (ht : t.Built) (levels n : Nat) :
    t.textsWithin levels n = t.textValues (t.descendantsWithin levels n) := by
  induction levels generalizing n with
  | zero => rfl
  | succ levels ih =>
    rw [textsWithin, descendantsWithin, textValues_flatMap]
    refine List.flatMap_congr fun c hc => ?_
    have hbelow (h : t.kind c ≠ .element) : t.descendantsWithin levels c = [] :=
      descendantsWithin_of_childless (ht.children_eq_nil hc h) levels
    split
    · next htext =>
      rw [textValues_cons_of_text htext, hbelow (by simp [htext])]
      rfl
    · next helement => rw [textValues_cons_of_ne (by simp [helement]), ← ih]
    · next htext helement =>
      rw [textValues_cons_of_ne htext, hbelow helement]
      rfl

/-- The text of a document or of an element is made of the texts below it. -/
theorem Built.text_eq (ht : t.Built) (hkind : t.kind n = .document ∨ t.kind n = .element) :
    t.text n = String.join (t.textValues (t.descendants n)) := by
  rw [descendants, ← ht.textsWithin_eq]
  rcases hkind with h | h <;> rw [text, h]

/-- What a child contributes to the text of its parent. -/
theorem Built.join_textValues_subtree (ht : t.Built) (hc : c ∈ t.children n) :
    String.join (t.textValues (t.subtree c)) =
      if t.kind c = .element ∨ t.kind c = .text then t.text c else "" := by
  by_cases helement : t.kind c = .element
  · rw [if_pos (.inl helement), subtree, textValues_cons_of_ne (by simp [helement]),
      ht.text_eq (.inr helement)]
  · have hbelow : t.descendants c = [] :=
      descendantsWithin_of_childless (ht.children_eq_nil hc helement) t.size
    rw [subtree, hbelow]
    by_cases htext : t.kind c = .text
    · rw [if_pos (.inr htext), textValues_cons_of_text htext, String.join_cons, text, htext]
      exact String.append_empty
    · rw [if_neg (not_or.mpr ⟨helement, htext⟩), textValues_cons_of_ne htext]
      rfl

/-- Children that are neither elements nor texts contribute nothing. -/
theorem Built.join_textValues_children (ht : t.Built) {children : List Nat}
    (hchildren : ∀ c ∈ children, c ∈ t.children n) :
    String.join (t.textValues (children.flatMap t.subtree)) =
      String.join ((children.filter fun c => t.kind c = .element ∨ t.kind c = .text).map t.text) := by
  rw [textValues_flatMap]
  induction children with
  | nil => rfl
  | cons c children ih =>
    obtain ⟨hc, hrest⟩ := List.forall_mem_cons.mp hchildren
    rw [List.flatMap_cons, String.join_append, ht.join_textValues_subtree hc, ih hrest]
    by_cases hkind : t.kind c = .element ∨ t.kind c = .text
    · rw [if_pos hkind, List.filter_cons_of_pos (by simpa using hkind), List.map_cons,
        String.join_cons]
    · rw [if_neg hkind, List.filter_cons_of_neg (by simpa using hkind)]
      exact String.empty_append

/-- The text of a document or of an element is made of the values of the texts that are visited below
it, in the order of a walk with a stack. So it is made of the texts of those of its children that are
elements or texts. -/
theorem text_agrees_with_descendants (ht : t.Built) (hn : t.IsBranch n) :
    t.text n = String.join (((t.along .descendant n).filter fun a => t.kind a == .text).map
      fun a => (t.node a).value) ∧
    StackWalk t (t.children n) (t.along .descendant n) ∧
    t.text n = String.join (((t.children n).filter fun c =>
      t.kind c = .element ∨ t.kind c = .text).map t.text) := by
  have htext := ht.text_eq hn.kind
  refine ⟨htext, ht.linked.stackWalk_descendants n, ?_⟩
  rw [htext, ht.linked.descendants_eq, ht.join_textValues_children fun _ hc => hc]

/-- The text of the library in the catalogue, where a comment stands between two books and an instruction
behind them. -/
theorem text_agrees_with_descendants_catalogue :
    catalogue.Built ∧ catalogue.IsBranch 1 ∧
    catalogue.text 1 = String.join (((catalogue.along .descendant 1).filter fun a =>
      catalogue.kind a == .text).map fun a => (catalogue.node a).value) ∧
    catalogue.text 1 = String.join (((catalogue.children 1).filter fun c =>
      catalogue.kind c = .element ∨ catalogue.kind c = .text).map catalogue.text) ∧
    catalogue.text 1 = "Dune9.5Emma4Wired" := by
  have hbranch : catalogue.IsBranch 1 := by decide
  obtain ⟨hbelow, -, hchildren⟩ := text_agrees_with_descendants built_catalogue hbranch
  exact ⟨built_catalogue, hbranch, hbelow, hchildren, by decide⟩

end TreeQuery.Tree
