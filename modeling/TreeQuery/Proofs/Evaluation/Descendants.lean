import TreeQuery.Proofs.Evaluation.Paths

/-!
# Descendants

The abbreviation `//` goes to a node and everything below it, and from each of them to its children.
That visits the children node by node, but they are what is below the first node, and the walk down
lists this in document order already. So sorting what was found gives the walk. Nothing is asked of the
tree but that its links fit together, so the focus may be on a node of any kind and have anything below.
-/

namespace TreeQuery

/-! ### Nodes -/

section Nodes

variable {forest : Forest} {n : Node}

private theorem candidates_eq_map (forest : Forest) (axis : Axis) (test : NodeTest) (n : Node) :
    Eval.candidates forest axis test n =
      (((n.tree forest).along axis n.id).filter ((n.tree forest).passes axis test)).map
        (Node.mk n.document) := by
  rw [Eval.candidates, Node.along, List.filter_map]
  rfl

/-- The children of the nodes in a subtree that pass a test are the nodes below its top that do. -/
theorem mem_flatMap_children (ht : (n.tree forest).Joined) (test : NodeTest) (k : Node) :
    k ∈ (Eval.candidates forest .descendantOrSelf (.kind .anyNode) n).flatMap
        (Eval.candidates forest .child test) ↔
      k ∈ Eval.candidates forest .descendant test n := by
  obtain ⟨d, i⟩ := n
  simp only [candidates_eq_map, List.mem_flatMap, List.mem_map, List.mem_filter]
  constructor
  · rintro ⟨_, ⟨p, ⟨hp, -⟩, rfl⟩, a, ⟨ha, hpasses⟩, rfl⟩
    exact ⟨a, ⟨ht.mem_descendants_iff.mpr ⟨p, hp, ha⟩, hpasses⟩, rfl⟩
  · rintro ⟨a, ⟨ha, hpasses⟩, rfl⟩
    obtain ⟨p, hp, hap⟩ := ht.mem_descendants_iff.mp ha
    exact ⟨⟨d, p⟩, ⟨p, ⟨hp, rfl⟩, rfl⟩, a, ⟨hap, hpasses⟩, rfl⟩

/-- Sorting these children gives the nodes below as the walk down lists them. -/
theorem sorted_flatMap_children (ht : (n.tree forest).Joined) (test : NodeTest) :
    Node.sorted forest ((Eval.candidates forest .descendantOrSelf (.kind .anyNode) n).flatMap
        (Eval.candidates forest .child test)) =
      Eval.candidates forest .descendant test n := by
  have hbefore : ((n.tree forest).descendants n.id).Pairwise (n.tree forest).Before :=
    (List.pairwise_cons.mp (ht.pairwise_subtree n.id)).2
  have hmem := mem_flatMap_children ht test
  rw [candidates_eq_map forest .descendant] at hmem ⊢
  refine Node.sorted_eq_map ht (hbefore.filter _) (fun i hi => ?_) hmem
  obtain ⟨p, -, hparent⟩ := ht.mem_descendants_iff.mp (List.mem_filter.mp hi).1
  exact ht.lt_size i p ((ht.mem_children p i).mp hparent).1

end Nodes

/-! ### Expressions -/

namespace Eval

variable {c : Context} {registry : Registry} {deeper : Deeper}

/-- A step without predicates finds its candidates. -/
theorem finds_plainStep (c : Context) (registry : Registry) (deeper : Deeper) (axis : Axis)
    (test : NodeTest) :
    Finds c (expr registry deeper (.step axis test [])) fun n => .ok (candidates c.forest axis test n) :=
  fun n _ _ => Prod.ext (congrArg Except.ok (Item.ofList_nodes (candidates c.forest axis test n))) rfl

/-- What the abbreviation finds from a node. -/
theorem found_descendantPath {n : Node} (ht : (n.tree c.forest).Joined) (test : NodeTest) :
    ((.ok (candidates c.forest .descendantOrSelf (.kind .anyNode) n) : Except EvalError (List Node)) >>=
        Node.foundFrom c.forest fun m => .ok (candidates c.forest .child test m)) =
      .ok (candidates c.forest .descendant test n) := by
  change Node.foundFrom c.forest _ _ = _
  rw [Node.foundFrom_eq_ok fun _ _ => rfl, sorted_flatMap_children ht test]

/-- A path from the root starts at the document node of the tree that the focus is in. -/
theorem run_rootPath {n : Node} (ht : (n.tree c.forest).Joined) (hn : n.id < (n.tree c.forest).size)
    {e : Expr} {found : Node → Except EvalError (List Node)} {nodes : List Node}
    (he : Finds c (expr registry deeper e) found) (hfound : found ⟨n.document, 0⟩ = .ok nodes)
    (position size : Nat) :
    (expr registry deeper (.rootPath e)).run.run { c with focus := some ⟨.node n, position, size⟩ } =
      (.ok (.ofNodes (Node.sorted c.forest nodes)),
        { c with focus := some ⟨.node n, position, size⟩ }) := by
  have hroot : n.root c.forest = ⟨n.document, 0⟩ := congrArg (Node.mk _) (ht.root_eq_zero hn)
  have hitems : (Item.node ⟨n.document, 0⟩).items = [(⟨n.document, 0⟩ : Node)].map .node := rfl
  have hgo := he.run_followPath hitems (some ⟨.node n, position, size⟩)
  rw [Node.foundFrom_eq_ok (g := fun _ => nodes) (by simpa using hfound)] at hgo
  simp only [expr]
  rw [run_bind]
  change (followPath (.node (n.root c.forest)) (expr registry deeper e)).run.run _ = _
  rw [hroot, hgo]
  simp [Except.map]

/-- A path to all nodes from the focus down and on to their children finds what the step to the nodes
below finds, in the same order, whatever node of whatever tree the focus is on; and so it is behind
the root of this tree. -/
theorem evaluate_descendantPath (registry : Registry) (c : Context) (n : Node) (position size : Nat)
    (test : NodeTest) (ht : (n.tree c.forest).Grown) (hn : n.IsIn c.forest) :
    let focused : Context := { c with focus := some ⟨.node n, position, size⟩ }
    let abbreviated : Expr := .path .descendantOrSelf (.step .child test [])
    let step : Expr := .step .descendant test []
    (evaluate registry abbreviated).run.run focused =
        (.ok (.ofNodes (candidates c.forest .descendant test n)), focused) ∧
      (evaluate registry step).run.run focused =
        (.ok (.ofNodes (candidates c.forest .descendant test n)), focused) ∧
      (evaluate registry (.rootPath abbreviated)).run.run focused =
        (evaluate registry (.rootPath step)).run.run focused := by
  intro focused abbreviated step
  have htree := ht.joined
  let deeper := deeperFrom registry focused
  have hstep := finds_plainStep c registry deeper .descendant test
  have hpath : Finds c (expr registry deeper abbreviated) _ :=
    (finds_plainStep c registry deeper .descendantOrSelf (.kind .anyNode)).path
      (finds_plainStep c registry deeper .child test)
  simp only [run_evaluate_expr]
  refine ⟨?_, hstep n position size, ?_⟩
  · rw [hpath n position size, found_descendantPath htree test]
    rfl
  · have hroot : ((⟨n.document, 0⟩ : Node).tree c.forest).Joined := htree
    rw [run_rootPath htree hn.id hpath (found_descendantPath hroot test),
      run_rootPath htree hn.id hstep rfl]

/-- The focus is on an attribute that has an element with a text below it. -/
theorem evaluate_descendantPath_belowAttribute :
    let t := ((((Tree.empty.addElement 0 (.simple "r")).addAttribute 1 (.simple "a") "x").addElement 2
      (.simple "e")).addText 3 "deep")
    let n : Node := ⟨0, 2⟩
    let focused : Context := { forest := #[t], focus := some ⟨.node n, 1, 1⟩ }
    (n.tree focused.forest).Grown ∧ n.IsIn focused.forest ∧
      (evaluate Registry.library (.path .descendantOrSelf (.step .child (.kind .anyNode) []))).run.run
        focused = (.ok (.ofNodes [⟨0, 3⟩, ⟨0, 4⟩]), focused) := by
  intro t n focused
  have ht : (n.tree focused.forest).Grown :=
    .addChild (.addChild (.addAttribute (.addChild .empty (by decide) (by decide) _ _) (by decide) _ _)
      (by decide) (by decide) _ _) (by decide) (by decide) _ _
  have hn : n.IsIn focused.forest := by decide
  exact ⟨ht, hn, (evaluate_descendantPath Registry.library { forest := #[t] } n 1 1 _ ht hn).1⟩

end Eval

end TreeQuery
