import TreeQuery.Proofs.Evaluation.Unchanged
import TreeQuery.Proofs.Forest
import TreeQuery.Proofs.Item.WellFormed
import TreeQuery.Proofs.Tree.Axes

/-!
# Paths of steps

What a step finds depends on the node it starts from and on nothing else of the focus: its predicates
count positions among its own candidates. Going on from everything that two steps have found together
or from what each start has found alone leads to the same nodes, and as sorting leaves each of them
once, in document order, it does not matter how a path is put together. Which error is met first may
depend on it, but not whether there is one.
-/

namespace TreeQuery

/-! ### Lists of outcomes -/

section Outcomes

variable {α β : Type} {f : α → Except EvalError (List β)} {as : List α}

private theorem mapM_eq_ok {g : α → List β} (h : ∀ a ∈ as, f a = .ok (g a)) : as.mapM f =
    .ok (as.map g) := by
  induction as with
  | nil => rfl
  | cons a as ih =>
    rw [List.forall_mem_cons] at h
    rw [List.mapM_cons, h.1, ih h.2]
    rfl

private theorem mapM_eq_error {a : α} {e : EvalError} (ha : a ∈ as) (h : f a = .error e) :
    ∃ e, as.mapM f = .error e := by
  induction as with
  | nil => exact absurd ha List.not_mem_nil
  | cons b as ih =>
    rw [List.mapM_cons]
    cases hb : f b with
    | error e => exact ⟨e, rfl⟩
    | ok _ =>
      rcases List.mem_cons.mp ha with rfl | ha
      · rw [h] at hb
        contradiction
      · obtain ⟨e, he⟩ := ih ha
        exact ⟨e, by rw [he]; rfl⟩

/-- Results may be changed one by one, or all in the end. -/
theorem mapM_map_outcome {γ : Type} (g : List β → γ) (as : List α) :
    as.mapM (fun a => (f a).map g) = (as.mapM f).map (List.map g) := by
  induction as with
  | nil => rfl
  | cons a as ih =>
    rw [List.mapM_cons, List.mapM_cons, ih]
    cases f a with
    | error e => rfl
    | ok b => cases as.mapM f <;> rfl

/-- Either all elements have a value or one of them fails. -/
theorem values_or_error (f : α → Except EvalError (List β)) (as : List α) :
    (∃ g : α → List β, ∀ a ∈ as, f a = .ok (g a)) ∨ ∃ a ∈ as, ∃ e, f a = .error e := by
  by_cases herror : ∃ a ∈ as, ∃ e, f a = .error e
  · exact Or.inr herror
  · refine Or.inl ⟨fun a => (f a).toOption.getD [], fun a ha => ?_⟩
    cases h : f a with
    | ok b => simp only [h, Except.toOption, Option.getD_some]
    | error e => exact absurd ⟨a, ha, e, h⟩ herror

end Outcomes

/-! ### Going on from several nodes -/

namespace Node

variable {forest : Forest} {found found' : Node → Except EvalError (List Node)} {nodes : List Node}

/-- What is found from some nodes, each of it once, in document order. -/
def foundFrom (forest : Forest) (found : Node → Except EvalError (List Node)) (nodes : List Node) :
    Except EvalError (List Node) :=
  (nodes.mapM found).map fun lists => sorted forest lists.flatten

/-- From a node that is there nothing but nodes of its document is found. -/
def StaysIn (forest : Forest) (found : Node → Except EvalError (List Node)) : Prop :=
  ∀ n, n.IsIn forest →
    Gives (fun nodes => ∀ k ∈ nodes, k.IsIn forest ∧ k.document = n.document) (found n)

/-- Where no step fails, what is found from each node is put in document order. -/
theorem foundFrom_eq_ok {g : Node → List Node} (h : ∀ n ∈ nodes, found n = .ok (g n)) :
    foundFrom forest found nodes = .ok (sorted forest (nodes.flatMap g)) := by
  rw [foundFrom, mapM_eq_ok h, List.flatMap_def]
  rfl

private theorem foundFrom_eq_error {n : Node} {e : EvalError} (hn : n ∈ nodes) (h : found n = .error e) :
    ∃ e, foundFrom forest found nodes = .error e := by
  obtain ⟨e, he⟩ := mapM_eq_error hn h
  exact ⟨e, by rw [foundFrom, he]; rfl⟩

/-- What is found in two steps is the same nodes whether what the first step finds is sorted in
between or not, and whether it is sorted for each start after the second step. -/
theorem sorted_flatMap_sorted {g g' : Node → List Node} (hforest : ∀ t ∈ forest, t.Grown)
    (hg : ∀ n ∈ nodes, ∀ m ∈ g n, m.IsIn forest ∧ ∀ k ∈ g' m, k.IsIn forest ∧ k.document = n.document)
    (hone : ∀ a ∈ nodes, ∀ b ∈ nodes, a.document = b.document) :
    sorted forest (nodes.flatMap fun n => sorted forest ((g n).flatMap g')) =
      sorted forest ((sorted forest (nodes.flatMap g)).flatMap g') := by
  have hfirst (m : Node) : m ∈ sorted forest (nodes.flatMap g) ↔ ∃ n ∈ nodes, m ∈ g n := by
    rw [mem_sorted hforest, List.mem_flatMap]
    intro m hm
    obtain ⟨n, hn, hm⟩ := List.mem_flatMap.mp hm
    exact (hg n hn m hm).1
  have hsecond (n : Node) (hn : n ∈ nodes) (k : Node) :
      k ∈ sorted forest ((g n).flatMap g') ↔ ∃ m ∈ g n, k ∈ g' m := by
    rw [mem_sorted hforest, List.mem_flatMap]
    intro k hk
    obtain ⟨m, hm, hk⟩ := List.mem_flatMap.mp hk
    exact ((hg n hn m hm).2 k hk).1
  have hboth {k : Node} (hk : k ∈ (sorted forest (nodes.flatMap g)).flatMap g') :
      ∃ n ∈ nodes, ∃ m ∈ g n, k ∈ g' m := by
    obtain ⟨m, hm, hk⟩ := List.mem_flatMap.mp hk
    obtain ⟨n, hn, hm⟩ := (hfirst m).mp hm
    exact ⟨n, hn, m, hm, hk⟩
  refine sorted_congr hforest (fun k hk => ?_) (fun a ha b hb => ?_) fun k => ⟨fun hk => ?_, fun hk => ?_⟩
  · obtain ⟨n, hn, m, hm, hk⟩ := hboth hk
    exact ((hg n hn m hm).2 k hk).1
  · obtain ⟨n, hn, m, hm, ha⟩ := hboth ha
    obtain ⟨n', hn', m', hm', hb⟩ := hboth hb
    rw [((hg n hn m hm).2 a ha).2, ((hg n' hn' m' hm').2 b hb).2]
    exact hone n hn n' hn'
  · obtain ⟨n, hn, hk⟩ := List.mem_flatMap.mp hk
    obtain ⟨m, hm, hk⟩ := (hsecond n hn k).mp hk
    exact List.mem_flatMap.mpr ⟨m, (hfirst m).mpr ⟨n, hn, hm⟩, hk⟩
  · obtain ⟨n, hn, m, hm, hk⟩ := hboth hk
    exact List.mem_flatMap.mpr ⟨n, hn, (hsecond n hn k).mpr ⟨m, hm, hk⟩⟩

/-- Two steps from nodes of one document lead to the same nodes whether the second one goes on from
all that the first one finds or from what it finds for each start, or both ways fail. -/
theorem foundFrom_assoc (hforest : ∀ t ∈ forest, t.Grown) (hfound : StaysIn forest found)
    (hfound' : StaysIn forest found') (hnodes : ∀ n ∈ nodes, n.IsIn forest)
    (hone : ∀ a ∈ nodes, ∀ b ∈ nodes, a.document = b.document) :
    let one := foundFrom forest found nodes >>= foundFrom forest found'
    let other := foundFrom forest (fun n => found n >>= foundFrom forest found') nodes
    (∃ e e', one = .error e ∧ other = .error e') ∨ ∃ result, one = .ok result ∧ other = .ok result := by
  intro one other
  have hfail {n : Node} {e : EvalError} (hn : n ∈ nodes)
      (h : (found n >>= foundFrom forest found') = .error e) : ∃ e, other = .error e :=
    foundFrom_eq_error hn h
  rcases values_or_error found nodes with ⟨g, hg⟩ | ⟨n, hn, e, he⟩
  · have hone' : one = foundFrom forest found' (sorted forest (nodes.flatMap g)) := by
      simp only [one, foundFrom_eq_ok hg]
      rfl
    have hsplit (n : Node) (hn : n ∈ nodes) :
        (found n >>= foundFrom forest found') = foundFrom forest found' (g n) := by
      rw [hg n hn]
      rfl
    have hstays (n : Node) (hn : n ∈ nodes) := hfound n (hnodes n hn) _ (hg n hn)
    have hfirst {m : Node} : m ∈ sorted forest (nodes.flatMap g) ↔ ∃ n ∈ nodes, m ∈ g n := by
      rw [mem_sorted hforest, List.mem_flatMap]
      intro m hm
      obtain ⟨n, hn, hm⟩ := List.mem_flatMap.mp hm
      exact (hstays n hn m hm).1
    rcases values_or_error found' (sorted forest (nodes.flatMap g)) with ⟨g', hg'⟩ | ⟨m, hm, e, he⟩
    · have heach : ∀ n ∈ nodes, (found n >>= foundFrom forest found') =
          .ok (sorted forest ((g n).flatMap g')) := fun n hn =>
        (hsplit n hn).trans (foundFrom_eq_ok fun m hm => hg' m (hfirst.mpr ⟨n, hn, hm⟩))
      refine Or.inr ⟨_, hone'.trans (foundFrom_eq_ok hg'), (foundFrom_eq_ok heach).trans ?_⟩
      rw [sorted_flatMap_sorted hforest (fun n hn m hm => ⟨(hstays n hn m hm).1, fun k hk => ?_⟩) hone]
      obtain ⟨hin, hdocument⟩ :=
        hfound' m (hstays n hn m hm).1 _ (hg' m (hfirst.mpr ⟨n, hn, hm⟩)) k hk
      exact ⟨hin, hdocument.trans (hstays n hn m hm).2⟩
    · obtain ⟨n, hn, hmem⟩ := hfirst.mp hm
      have hlast : ∃ e, foundFrom forest found' (g n) = .error e := foundFrom_eq_error hmem he
      obtain ⟨e', he'⟩ : ∃ e, one = .error e := hone' ▸ foundFrom_eq_error hm he
      obtain ⟨d, hd⟩ := hlast
      obtain ⟨d', hd'⟩ := hfail hn ((hsplit n hn).trans hd)
      exact Or.inl ⟨e', d', he', hd'⟩
  · obtain ⟨e', he'⟩ : ∃ e, foundFrom forest found nodes = .error e := foundFrom_eq_error hn he
    obtain ⟨d, hd⟩ := hfail hn (by rw [he]; rfl)
    exact Or.inl ⟨e', d, by simp only [one, he']; rfl, hd⟩

end Node

/-! ### Nodes as values -/

namespace Item

/-- A list of nodes holds no error and no sequence, so it is a set of nodes as it stands. -/
theorem ofList_nodes (nodes : List Node) : ofList (nodes.map .node) = ofNodes nodes := by
  have herror : (nodes.map Item.node).findSome? error? = none := by
    simp [List.findSome?_eq_none_iff, error?]
  have hspliced : (nodes.map Item.node).flatMap spliced = nodes.map .node := by
    rw [List.flatMap_map]
    exact List.flatMap_pure_eq_map _ _
  rw [ofList, herror, hspliced, ofNodes]

/-- The items of a set of nodes are the nodes. -/
theorem items_ofNodes (nodes : List Node) : (ofNodes nodes).items = nodes.map .node := by
  match nodes with
  | [] | [_] | _ :: _ :: _ => rfl

private theorem onlyNodes_eq {value : Item} {nodes : List Node} (h : value.items = nodes.map .node) :
    value.onlyNodes = .ok () := by
  have hnone : (nodes.map Item.node).find? (fun item => item.node?.isNone) = none := by
    simp [List.find?_eq_none, node?]
  rw [onlyNodes, h, hnone]

private theorem joinSteps_nodes (forest : Forest) (nodes : List Node) :
    joinSteps forest (nodes.map .node) = .ok (ofNodes (Node.sorted forest nodes)) := by
  have hnodes : (nodes.map Item.node).filterMap node? = nodes := by
    rw [List.filterMap_map]
    exact List.filterMap_some
  rw [joinSteps, hnodes]
  cases nodes with
  | nil => rfl
  | cons n nodes => simp

end Item

namespace Eval

variable {α β : Type} {P : α → Prop} {Q : β → Prop} {c : Context} {registry : Registry} {deeper : Deeper}

/-! ### Evaluations that do not look at the focus -/

/-- Whatever the focus is in this context, the evaluation has the same outcome and keeps the context;
if the outcome is a value, it has a property. -/
def Settles (c : Context) (P : α → Prop) (m : Eval α) : Prop :=
  ∃ r, Gives P r ∧ ∀ focus, m.run.run { c with focus } = (r, { c with focus })

private theorem settles_pure {a : α} (h : P a) : Settles c P (pure a) := ⟨.ok a, .ok h, fun _ => rfl⟩

private theorem settles_value (r : Except EvalError α) :
    Settles c (fun _ => True) (reading fun _ => r) :=
  ⟨r, fun _ _ => trivial, fun _ => rfl⟩

private theorem settles_withFocus {m : Eval α} (hm : Keeps m) (focus : Option Focus) :
    Settles c (fun _ => True) (withFocus focus m) := by
  refine ⟨((withFocus focus m).run.run c).1, fun _ _ => trivial, fun outer => ?_⟩
  have hkeeps := hm.withFocus focus { c with focus := outer }
  exact Prod.ext rfl hkeeps

private theorem Settles.bind {m : Eval α} {f : α → Eval β} (hm : Settles c P m)
    (hf : ∀ a, P a → Settles c Q (f a)) : Settles c Q (m >>= f) := by
  obtain ⟨r, hr, hrun⟩ := hm
  cases r with
  | error e =>
    refine ⟨.error e, .error e, fun focus => ?_⟩
    rw [run_bind, hrun focus]
  | ok a =>
    obtain ⟨r, hr', hrun'⟩ := hf a (hr a rfl)
    refine ⟨r, hr', fun focus => ?_⟩
    rw [run_bind, hrun focus]
    exact hrun' focus

private theorem Settles.mono {P' : α → Prop} {m : Eval α} (hm : Settles c P m) (h : ∀ a, P a → P' a) :
    Settles c P' m := by
  obtain ⟨r, hr, hrun⟩ := hm
  exact ⟨r, fun a ha => h a (hr a ha), hrun⟩

private theorem Settles.filterMapM {f : α → Eval (Option β)} {g : α → β}
    (hf : ∀ a, Settles c (fun b => b = none ∨ b = some (g a)) (f a)) (as : List α) :
    Settles c (fun bs => bs.Sublist (as.map g)) (as.filterMapM f) := by
  induction as with
  | nil => exact settles_pure (List.Sublist.refl _)
  | cons a as ih =>
    rw [List.filterMapM_cons]
    refine (hf a).bind fun b hb => ?_
    rcases hb with rfl | rfl
    · exact ih.mono fun bs hbs => hbs.cons _
    · exact ih.bind fun bs hbs => settles_pure (hbs.cons_cons _)

/-- A predicate keeps some of the items. -/
theorem settles_filterItems {predicate : Eval Item} (hp : Keeps predicate) (items : List Item) :
    Settles c (fun kept => kept.Sublist items) (filterItems items predicate) := by
  have hkept : Settles c (fun kept => kept.Sublist ((items.zipIdx 1).map Prod.fst))
      (filterItems items predicate) := by
    unfold filterItems
    refine Settles.filterMapM (fun x => ?_) _
    refine (settles_withFocus hp _).bind fun value _ => (settles_value _).bind fun kept _ => ?_
    cases kept with
    | true => exact settles_pure (Or.inr rfl)
    | false => exact settles_pure (Or.inl rfl)
  rwa [List.zipIdx_map_fst] at hkept

/-- Predicates do not look at the focus of the step that they belong to. -/
theorem settles_filtered (hr : registry.Keeps) (hd : deeper.Keeps) (items : List Item)
    (predicates : List Expr) :
    Settles c (fun kept => kept.Sublist items) (filtered registry deeper items predicates) := by
  induction predicates generalizing items with
  | nil => exact settles_pure (List.Sublist.refl _)
  | cons e es ih =>
    refine (settles_filterItems (keeps_expr hr hd e) items).bind fun kept hkept => ?_
    exact (ih kept).mono fun left hleft => hleft.trans hkept

/-! ### Evaluations that find nodes -/

/-- With the focus on a node the evaluation finds nodes, the same in whatever place the node is, and
keeps the context. -/
def Finds (c : Context) (m : Eval Item) (found : Node → Except EvalError (List Node)) : Prop :=
  ∀ n position size, m.run.run { c with focus := some ⟨.node n, position, size⟩ } =
    ((found n).map Item.ofNodes, { c with focus := some ⟨.node n, position, size⟩ })

/-- Evaluations that keep a context are run there for each member of a list as their results are found.
-/
theorem run_mapM {f : α → Eval β} {g : α → Except EvalError β} {as : List α} {d : Context}
    (h : ∀ a ∈ as, (f a).run.run d = (g a, d)) : (as.mapM f).run.run d = (as.mapM g, d) := by
  induction as with
  | nil => rfl
  | cons a as ih =>
    rw [List.forall_mem_cons] at h
    rw [List.mapM_cons, List.mapM_cons, run_bind, h.1]
    cases g a with
    | error e => rfl
    | ok b =>
      simp only [run_bind, ih h.2]
      cases as.mapM g <;> rfl

/-- A path goes on from each of its nodes. -/
theorem Finds.run_followPath {m : Eval Item} {found : Node → Except EvalError (List Node)}
    (h : Finds c m found) {base : Item} {nodes : List Node} (hbase : base.items = nodes.map .node)
    (focus : Option Focus) :
    (followPath base m).run.run { c with focus } =
      ((Node.foundFrom c.forest found nodes).map Item.ofNodes, { c with focus }) := by
  let value (n : Node) : Except EvalError Item := (found n).map Item.ofNodes
  have hvalues : (nodes.zipIdx 1).mapM (fun p => value p.1) =
      (nodes.mapM found).map (List.map Item.ofNodes) :=
    calc (nodes.zipIdx 1).mapM (fun p => value p.1)
      _ = ((nodes.zipIdx 1).map Prod.fst).mapM value := by rw [List.mapM_map]; rfl
      _ = nodes.mapM value := by rw [List.zipIdx_map_fst]
      _ = (nodes.mapM found).map (List.map Item.ofNodes) := mapM_map_outcome _ _
  have heach : (forEachItem base m).run.run { c with focus } =
      ((nodes.mapM found).map (List.map Item.ofNodes), { c with focus }) := by
    rw [← hvalues]
    simp only [forEachItem, hbase, List.zipIdx_map, List.mapM_map]
    refine run_mapM fun p _ => ?_
    change (withFocus (some ⟨.node p.1, p.2, base.count⟩) m).run.run { c with focus } = _
    simp only [run_withFocus, h p.1]
    rfl
  have hitems (lists : List (List Node)) :
      (lists.map Item.ofNodes).flatMap Item.items = lists.flatten.map .node := by
    rw [List.flatMap_map, List.map_flatten, List.flatMap_def]
    exact congrArg List.flatten (List.map_congr_left fun nodes _ => Item.items_ofNodes nodes)
  rw [followPath, run_bind]
  simp only [reading, Item.onlyNodes_eq hbase]
  change ((forEachItem base m >>= fun found =>
    reading fun c => Item.joinSteps c.forest (found.flatMap Item.items)).run.run { c with focus }) = _
  rw [run_bind, heach, Node.foundFrom]
  cases nodes.mapM found with
  | error e => rfl
  | ok lists =>
    have hjoin := Item.joinSteps_nodes c.forest lists.flatten
    rw [← hitems] at hjoin
    exact Prod.ext hjoin rfl

/-- The nodes that a step finds from a node before its predicates are applied. -/
def candidates (forest : Forest) (axis : Axis) (test : NodeTest) (n : Node) : List Node :=
  (n.along forest axis).filter (·.passes forest axis test)

/-- What a step finds from a node. -/
def stepFrom (registry : Registry) (deeper : Deeper) (c : Context) (axis : Axis) (test : NodeTest)
    (predicates : List Expr) (n : Node) : Except EvalError (List Node) :=
  ((filtered registry deeper ((candidates c.forest axis test n).map .node) predicates).run.run c).1.map
    (List.filterMap Item.node?)

/-- The predicates of a step choose among its candidates. -/
theorem run_filtered (hr : registry.Keeps) (hd : deeper.Keeps) (axis : Axis) (test : NodeTest)
    (predicates : List Expr) (n : Node) :
    let found := stepFrom registry deeper c axis test predicates n
    Gives (fun nodes => nodes.Sublist (candidates c.forest axis test n)) found ∧
      ∀ focus, (filtered registry deeper ((candidates c.forest axis test n).map .node)
        predicates).run.run { c with focus } = (found.map (List.map Item.node), { c with focus }) := by
  obtain ⟨r, hr, hrun⟩ := settles_filtered (c := c) hr hd
    ((candidates c.forest axis test n).map .node) predicates
  have hfound : stepFrom registry deeper c axis test predicates n = r.map (List.filterMap Item.node?) := by
    rw [stepFrom, show (filtered registry deeper _ predicates).run.run c = (r, c) from hrun c.focus]
  rw [hfound]
  cases r with
  | error e => exact ⟨.error e, hrun⟩
  | ok kept =>
    obtain ⟨nodes, hsublist, rfl⟩ := List.sublist_map_iff.mp (hr kept rfl)
    have hnodes : (nodes.map Item.node).filterMap Item.node? = nodes := by
      rw [List.filterMap_map]
      exact List.filterMap_some
    have hmap : Except.map (List.filterMap Item.node?) (.ok (nodes.map Item.node)) =
        (.ok nodes : Except EvalError (List Node)) := congrArg Except.ok hnodes
    rw [hmap]
    exact ⟨.ok hsublist, hrun⟩

/-- A step finds nodes. -/
theorem finds_step (hr : registry.Keeps) (hd : deeper.Keeps) (axis : Axis) (test : NodeTest)
    (predicates : List Expr) :
    Finds c (expr registry deeper (.step axis test predicates))
      (stepFrom registry deeper c axis test predicates) := by
  intro n position size
  have hrun := (run_filtered (c := c) hr hd axis test predicates n).2 (some ⟨.node n, position, size⟩)
  simp only [expr]
  rw [run_bind]
  change ((filtered registry deeper ((candidates c.forest axis test n).map .node) predicates >>=
    fun kept => pure (Item.ofList kept)).run.run _) = _
  rw [run_bind, hrun]
  cases stepFrom registry deeper c axis test predicates n with
  | error e => rfl
  | ok nodes => exact Prod.ext (congrArg Except.ok (Item.ofList_nodes nodes)) rfl

/-- What a step finds is in the document of the node that it starts from. -/
theorem staysIn_step (hforest : ∀ t ∈ c.forest, t.Grown) (hr : registry.Keeps) (hd : deeper.Keeps)
    (axis : Axis) (test : NodeTest) (predicates : List Expr) :
    Node.StaysIn c.forest (stepFrom registry deeper c axis test predicates) := by
  intro n hn nodes hnodes k hk
  have hsublist := (run_filtered (c := c) hr hd axis test predicates n).1 nodes hnodes
  have halong : k ∈ n.along c.forest axis := (List.mem_filter.mp (hsublist.subset hk)).1
  obtain ⟨id, hid, rfl⟩ := List.mem_map.mp halong
  have hlt := (Node.grown_tree hforest hn).joined.lt_size_of_mem_along hn.id axis id hid
  exact ⟨⟨hn.document, hlt⟩, rfl⟩

/-! ### Paths -/

/-- A path goes on from the nodes that its left side gives. -/
theorem run_path {left right : Expr} {found : Node → Except EvalError (List Node)} {base : Item}
    {nodes : List Node} {focus : Option Focus}
    (hleft : (expr registry deeper left).run.run { c with focus } = (.ok base, { c with focus }))
    (hbase : base.items = nodes.map .node) (hright : Finds c (expr registry deeper right) found) :
    (expr registry deeper (.path left right)).run.run { c with focus } =
      ((Node.foundFrom c.forest found nodes).map Item.ofNodes, { c with focus }) := by
  simp only [expr]
  rw [run_bind, hleft]
  exact hright.run_followPath hbase focus

/-- Where its left side fails so does a path; where it finds nodes the path goes on from them. -/
theorem run_path_nodes {left right : Expr} {found : Node → Except EvalError (List Node)}
    {r : Except EvalError (List Node)} {focus : Option Focus}
    (hleft : (expr registry deeper left).run.run { c with focus } = (r.map Item.ofNodes, { c with focus }))
    (hright : Finds c (expr registry deeper right) found) :
    (expr registry deeper (.path left right)).run.run { c with focus } =
      ((r >>= Node.foundFrom c.forest found).map Item.ofNodes, { c with focus }) := by
  cases r with
  | error e =>
    simp only [expr]
    rw [run_bind, hleft]
    rfl
  | ok nodes => exact run_path hleft (Item.items_ofNodes nodes) hright

/-- A path finds nodes if both its sides do. -/
theorem Finds.path {left right : Expr} {found found' : Node → Except EvalError (List Node)}
    (hleft : Finds c (expr registry deeper left) found)
    (hright : Finds c (expr registry deeper right) found') :
    Finds c (expr registry deeper (.path left right)) fun n =>
      found n >>= Node.foundFrom c.forest found' :=
  fun n position size => run_path_nodes (hleft n position size) hright

/-- Behind an expression whose value is nodes, each of two steps goes on from what is found so far. -/
theorem evaluate_path_steps (hr : registry.Keeps) {left : Expr} {base : Item} {nodes : List Node}
    (hbase : ((evaluate registry left).run.run c).1 = .ok base) (hitems : base.items = nodes.map .node)
    (axis axis' : Axis) (test test' : NodeTest) (predicates predicates' : List Expr) :
    let found := stepFrom registry (deeperFrom registry c) c
    ((evaluate registry
        (.path (.path left (.step axis test predicates)) (.step axis' test' predicates'))).run.run c).1 =
      (Node.foundFrom c.forest (found axis test predicates) nodes >>=
        Node.foundFrom c.forest (found axis' test' predicates')).map Item.ofNodes := by
  intro found
  have hd := keeps_deeperFrom hr c
  have hpath := run_path (run_expr_of_evaluate hr hbase) hitems (finds_step hr hd axis test predicates)
  rw [run_evaluate_expr, run_path_nodes hpath (finds_step hr hd axis' test' predicates')]

/-- Putting two steps behind an expression whose value is nodes of one document, one after the other or
as a path of their own, gives the same nodes, or both fail. Of the functions that are registered beside
those of the library it is assumed that they keep the context when the functions do that they call. -/
theorem path_assoc {c : Context} {registry : Registry}
    (hhost : ∀ f ∈ registry.functions, f ∈ Registry.library.functions ∨ f.Keeps)
    (hforest : ∀ t ∈ c.forest, t.Grown) {left : Expr} {base : Item} {nodes : List Node}
    (hbase : ((evaluate registry left).run.run c).1 = .ok base) (hitems : base.items = nodes.map .node)
    (hnodes : ∀ n ∈ nodes, n.IsIn c.forest) (hone : ∀ a ∈ nodes, ∀ b ∈ nodes, a.document = b.document)
    (axis axis' : Axis) (test test' : NodeTest) (predicates predicates' : List Expr) :
    let first : Expr := .step axis test predicates
    let second : Expr := .step axis' test' predicates'
    let one := ((evaluate registry (.path (.path left first) second)).run.run c).1
    let other := ((evaluate registry (.path left (.path first second))).run.run c).1
    (∃ e e', one = .error e ∧ other = .error e') ∨
      ∃ found, one = .ok (.ofNodes found) ∧ other = .ok (.ofNodes found) := by
  intro first second one other
  have hr : registry.Keeps := fun f hf => (hhost f hf).elim (Registry.keeps_library f) id
  have hd := keeps_deeperFrom hr c
  have hbehind := (finds_step (c := c) hr hd axis test predicates).path
    (finds_step hr hd axis' test' predicates')
  have hother := run_path (run_expr_of_evaluate hr hbase) hitems hbehind
  rw [show one = _ from evaluate_path_steps hr hbase hitems axis axis' test test' predicates predicates',
    show other = _ from (congrArg Prod.fst (run_evaluate_expr _ c)).trans (congrArg Prod.fst hother)]
  rcases Node.foundFrom_assoc hforest (staysIn_step hforest hr hd axis test predicates)
    (staysIn_step hforest hr hd axis' test' predicates') hnodes hone with ⟨e, e', he, he'⟩ | ⟨found, hf, hf'⟩
  · exact Or.inl ⟨e, e', by rw [he]; rfl, by rw [he']; rfl⟩
  · exact Or.inr ⟨found, by rw [hf]; rfl, by rw [hf']; rfl⟩

/-- The first element behind each of three books, one of them given twice, and what is inside: the title and
the price of the second book and the title of the magazine, each with its text. -/
theorem path_assoc_catalogue :
    let books : List Node := [⟨0, 10⟩, ⟨0, 2⟩, ⟨0, 10⟩]
    let c : Context :=
      { forest := #[Tree.catalogue], scopes := #[⟨none, [(.simple "books", .ofNodes books)]⟩] }
    let left : Expr := .var (.simple "books")
    let first : Expr := .step .followingSibling .anyName [.literal (.integer 1)]
    let second : Expr := .step .descendant (.kind .anyNode) []
    let one := ((evaluate Registry.library (.path (.path left first) second)).run.run c).1
    let other := ((evaluate Registry.library (.path left (.path first second))).run.run c).1
    let found : List Node := [⟨0, 12⟩, ⟨0, 13⟩, ⟨0, 14⟩, ⟨0, 15⟩, ⟨0, 18⟩, ⟨0, 19⟩]
    ((evaluate Registry.library left).run.run c).1 = .ok (.ofNodes books) ∧
      (∀ t ∈ c.forest, t.Grown) ∧ (∀ n ∈ books, n.IsIn c.forest) ∧
      one = .ok (.ofNodes found) ∧ other = .ok (.ofNodes found) := by
  intro books c left first second one other found
  have hbase : ((evaluate Registry.library left).run.run c).1 = .ok (.ofNodes books) := rfl
  have hforest : ∀ t ∈ c.forest, t.Grown := by
    simpa [c] using Tree.built_catalogue.grown
  have hbooks : ∀ n ∈ books, n.IsIn c.forest := by
    decide
  have hsorted (ids : List Nat) {nodes : List Node}
      (hids : ids.Pairwise fun i j =>
        Tree.catalogue.compareOrder i j = .lt ∧ Tree.catalogue.compareOrder j i = .gt)
      (hsize : ∀ i ∈ ids, i < Tree.catalogue.size) (hmem : ∀ n, n ∈ nodes ↔ n ∈ ids.map (Node.mk 0)) :
      Node.sorted c.forest nodes = ids.map (Node.mk 0) :=
    Node.sorted_eq_map Tree.built_catalogue.grown.joined (hids.imp fun h => ⟨h.1, h.2⟩) hsize hmem
  let step := stepFrom Registry.library (deeperFrom Registry.library c) c
  have hfirst : Node.foundFrom c.forest (step .followingSibling .anyName [.literal (.integer 1)]) books =
      .ok [⟨0, 10⟩, ⟨0, 17⟩] := by
    have hfound : books.mapM (step .followingSibling .anyName [.literal (.integer 1)]) =
        .ok [[⟨0, 17⟩], [⟨0, 10⟩], [⟨0, 17⟩]] := by
      decide +kernel
    have hmem (n : Node) : n ∈ [[⟨0, 17⟩], [⟨0, 10⟩], [(⟨0, 17⟩ : Node)]].flatten ↔
        n ∈ [10, 17].map (Node.mk 0) := by
      simpa using Or.inr
    rw [Node.foundFrom, hfound]
    exact congrArg Except.ok (hsorted [10, 17] (by decide) (by decide) hmem)
  have hsecond : Node.foundFrom c.forest (step .descendant (.kind .anyNode) []) [⟨0, 10⟩, ⟨0, 17⟩] =
      .ok found := by
    have hfound : [⟨0, 10⟩, ⟨0, 17⟩].mapM (step .descendant (.kind .anyNode) []) =
        .ok [[⟨0, 12⟩, ⟨0, 13⟩, ⟨0, 14⟩, ⟨0, 15⟩], [⟨0, 18⟩, ⟨0, 19⟩]] := by
      decide +kernel
    rw [Node.foundFrom, hfound]
    exact congrArg Except.ok <|
      hsorted [12, 13, 14, 15, 18, 19] (by decide) (by decide) fun _ => Iff.rfl
  have hone : one = .ok (.ofNodes found) := by
    rw [show one = _ from evaluate_path_steps Registry.keeps_library hbase (Item.items_ofNodes books) _ _ _
      _ _ _, hfirst]
    exact congrArg (Except.map Item.ofNodes) hsecond
  refine ⟨hbase, hforest, hbooks, hone, ?_⟩
  rcases path_assoc (fun _ hf => Or.inl hf) hforest hbase rfl hbooks (by decide) .followingSibling
    .descendant .anyName (.kind .anyNode) [.literal (.integer 1)] [] with ⟨e, -, he, -⟩ | ⟨_, h, h'⟩
  · exact absurd (hone.symm.trans he) nofun
  · exact h'.trans (h.symm.trans hone)

end Eval

end TreeQuery
