import TreeQuery.Proofs.Evaluation.Bindings
import TreeQuery.Proofs.Evaluation.Errors
import TreeQuery.Proofs.Evaluation.Paths

/-!
# Predicates that ask for a position

A predicate that is a number keeps the item at this position, and so does a comparison of `position()`
with the number. The first is decided by the predicate itself, the second by a call, a comparison and the
truth of what comes out; both are evaluated with the focus on each item in turn. What they keep is at most
one item, and the next predicate counts positions from there.
-/

namespace TreeQuery

namespace Item

/-- The item at a position, counted from one. -/
def at? (items : List Item) (position : Int) : Option Item :=
  if 0 < position then items[(position - 1).toNat]? else none

/-- Going through items with their positions and keeping one position finds the item there. -/
theorem filterMap_zipIdx_eq_at? (items : List Item) (position : Int) :
    (items.zipIdx 1).filterMap (fun x => if position = x.2 then some x.1 else none) =
      (at? items position).toList := by
  suffices h : ∀ start : Nat, (items.zipIdx start).filterMap
      (fun x => if position = x.2 then some x.1 else none) =
        (if (start : Int) ≤ position then items[(position - start).toNat]? else none).toList by
    exact h 1
  induction items with
  | nil => intro start; simp
  | cons item items ih =>
    intro start
    rw [List.zipIdx_cons, List.filterMap_cons, ih]
    rcases Int.lt_trichotomy position start with hlt | rfl | hlt
    · rw [if_neg (by omega), if_neg (by omega), if_neg (by omega)]
    · rw [if_pos rfl, if_neg (by omega), if_pos (Int.le_refl _), Int.sub_self]
      rfl
    · have hindex : (position - start).toNat = (position - (start + 1 : Nat)).toNat + 1 := by omega
      rw [if_neg (by omega), if_pos (by omega), if_pos (by omega), hindex, List.getElem?_cons_succ]

end Item

namespace Eval

variable {α β : Type} {c : Context} {registry : Registry} {deeper : Deeper} {predicate : Eval Item}
  {items : List Item} {position : Int}

/-! ### Keeping items -/

private theorem run_filterMapM {f : α → Eval (Option β)} {g : α → Option β} {as : List α}
    (h : ∀ a ∈ as, (f a).run.run c = (.ok (g a), c)) :
    (as.filterMapM f).run.run c = (.ok (as.filterMap g), c) := by
  induction as with
  | nil => rfl
  | cons a as ih =>
    obtain ⟨ha, has⟩ := List.forall_mem_cons.mp h
    rw [List.filterMapM_cons, run_bind, ha, List.filterMap_cons]
    cases g a with
    | none => exact ih has
    | some b =>
      simp only [run_bind, ih has]
      rfl

private theorem run_filterMapM_congr {f g : α → Eval (Option β)} (hf : ∀ a, Keeps (f a))
    (h : ∀ a, (f a).run.run c = (g a).run.run c) (as : List α) :
    (as.filterMapM f).run.run c = (as.filterMapM g).run.run c := by
  induction as with
  | nil => rfl
  | cons a as ih =>
    have hkept := hf a c
    rw [List.filterMapM_cons, List.filterMapM_cons, run_bind, run_bind, ← h a]
    rcases hrun : (f a).run.run c with ⟨_ | b, d⟩
    · rfl
    · rw [hrun] at hkept
      cases hkept
      cases b with
      | none => exact ih
      | some b => simp only [run_bind, ih]

/-- A predicate is evaluated at the depth of the expression that it belongs to. -/
theorem run_filterItems_evaluate (hr : registry.Keeps) (items : List Item) (q : Expr) :
    (filterItems items (evaluate registry q)).run.run c =
      (filterItems items (expr registry (deeperFrom registry c) q)).run.run c := by
  have hq : Keeps (expr registry (deeperFrom registry c) q) := keeps_expr hr (keeps_deeperFrom hr _) q
  unfold filterItems
  refine (run_filterMapM_congr (fun x => ?_) (fun x => ?_) _).symm
  · refine (hq.withFocus _).bind fun value => (keeps_reading _).bind fun kept => keeps_pure _
  · rw [run_bind, run_bind, run_withFocus, run_withFocus, run_evaluate_expr]
    rfl

/-- With the focus on any item the predicate keeps the one at a position and no other. -/
def Picks (c : Context) (position : Int) (predicate : Eval Item) : Prop :=
  ∀ (item : Item) (place size : Nat), (place : Int) ≤ Int64.maxValue.toInt →
    ∃ value, predicate.run.run { c with focus := some ⟨item, place, size⟩ } =
        (.ok value, { c with focus := some ⟨item, place, size⟩ }) ∧
      value.keeps place = .ok (decide (position = place))

/-- Such a predicate leaves the item at the position. -/
theorem Picks.run_filterItems (h : Picks c position predicate)
    (hlength : (items.length : Int) ≤ Int64.maxValue.toInt) :
    (filterItems items predicate).run.run c = (.ok (Item.at? items position).toList, c) := by
  rw [← Item.filterMap_zipIdx_eq_at?]
  unfold filterItems
  refine run_filterMapM fun x hx => ?_
  have hplace := List.snd_lt_add_of_mem_zipIdx hx
  obtain ⟨value, hrun, hkeeps⟩ := h x.1 x.2 items.length (by omega)
  change (withFocus (some ⟨x.1, x.2, items.length⟩) predicate >>= fun value =>
    reading (fun _ => value.keeps x.2) >>= fun kept =>
      pure (if kept = true then some x.1 else none)).run.run c = _
  rw [run_bind, run_withFocus, hrun]
  simp only [run_bind, run_reading, hkeeps, decide_eq_true_eq]
  rfl

/-! ### The two predicates -/

variable {k : QName} {i : Int64}

/-- `position() = $k` -/
def positionIs (k : QName) : Expr :=
  .binary (.comparison (.general .eq)) (.call (.simple "position") []) (.var k)

/-- A number asks for the position that it is. -/
theorem picks_var (hk : c.lookup? k = some (.integer i)) :
    Picks c i.toInt (expr registry deeper (.var k)) :=
  fun _ _ _ _ => ⟨.integer i, run_var hk, rfl⟩

/-- The position is in the focus. -/
theorem run_position (focus : Focus) (hfocus : c.focus = some focus) (hdepth : c.depth < c.limits.depth) :
    (expr Registry.library deeper (.call (.simple "position") [])).run.run c =
      (.ok (.ofNat focus.position), c) := by
  have hposition : Registry.library.resolve? (.simple "position") =
      some (.constant "position" fun c => return .ofNat (← c.getFocus).position) :=
    (Registry.resolve?_library_simple _).trans rfl
  have hfound (c' : Context) (h : c'.focus = some focus) :
      (reading fun c => return Item.ofNat (← c.getFocus).position).run.run c' =
        (.ok (.ofNat focus.position), c') := by
    rw [run_reading, Context.getFocus, h]
    rfl
  have hargs : Evaluate .library deeper c [] [] := .nil
  exact (run_expr_call rfl hposition rfl hdepth hargs (hfound _ hfocus) :)

/-- Two integers are equal in a general comparison if they are the same. -/
theorem compareAny_integers (forest : Forest) (a b : Int64) :
    Item.compareAny forest .eq (.integer a) (.integer b) = .ok (.boolean (decide (a.toInt = b.toInt))) := by
  have hequal : (compare a.toInt b.toInt == .eq) = decide (a.toInt = b.toInt) := by
    rw [Bool.eq_iff_iff, beq_iff_eq, decide_eq_true_iff]
    exact Std.compare_eq_iff_eq
  have hrelated : (Atomic.integer a).related .eq (.integer b) = .ok (decide (a.toInt = b.toInt)) :=
    congrArg Except.ok hequal
  change ([Atomic.integer a].anyM (fun x => [Atomic.integer b].anyM fun y => Atomic.related .eq x y) >>=
    fun holds => pure (Item.boolean holds)) = _
  simp only [List.anyM, hrelated]
  cases decide (a.toInt = b.toInt) <;> rfl

private theorem toInt_ofNat {place : Nat} (h : (place : Int) ≤ Int64.maxValue.toInt) :
    (Int64.ofNat place).toInt = place := by
  have hmax : Int64.maxValue.toInt = 2 ^ 63 - 1 := rfl
  exact Int64.toInt_ofNat_of_lt (by omega)

/-- Comparing the position with a number asks for the position that it is. -/
theorem picks_positionIs (hk : c.lookup? k = some (.integer i)) (hdepth : c.depth < c.limits.depth) :
    Picks c i.toInt (expr Registry.library deeper (positionIs k)) := by
  intro item place size hplace
  refine ⟨.boolean (decide (i.toInt = place)), ?_, rfl⟩
  have hposition : (expr Registry.library deeper (.call (.simple "position") [])).run.run
      { c with focus := some ⟨item, place, size⟩ } =
        (.ok (.ofNat place), { c with focus := some ⟨item, place, size⟩ }) :=
    run_position (c := { c with focus := some ⟨item, place, size⟩ }) ⟨item, place, size⟩ rfl hdepth
  have hvar : (expr Registry.library deeper (.var k)).run.run
      { c with focus := some ⟨item, place, size⟩ } =
        (.ok (.integer i), { c with focus := some ⟨item, place, size⟩ }) := run_var hk
  rw [positionIs, expr, binary_of_isStrict rfl, run_bind_ok hposition, run_bind_ok hvar]
  refine Prod.ext ((compareAny_integers c.forest (Int64.ofNat place) i).trans ?_) rfl
  rw [toInt_ofNat hplace]
  exact congrArg (fun b => Except.ok (Item.boolean b)) (decide_eq_decide.mpr eq_comm)

end Eval

/-! ### Where predicates stand -/

/-- What predicates are put behind: any expression, or a step, whose own predicates they join. -/
inductive Predicated
  | behind (base : Expr)
  | step (axis : Axis) (test : NodeTest) (before : List Expr)

namespace Predicated

/-- The expression with predicates put behind. -/
def put : Predicated → List Expr → Expr
  | behind base, predicates => predicates.foldl (fun e p => e.link (.predicate p)) base
  | step axis test before, predicates => .step axis test (before ++ predicates)

/-- The error of a step whose context item is no node, which quotes the step. -/
def stepError (axis : Axis) (test : NodeTest) (predicates : List Expr) (item : Item) : EvalError :=
  .typeError ("axis step " ++ (Expr.step axis test predicates).render ++
    " needs a node as context item, got " ++ item.typeName)

/-- What becomes of an error when predicates are put behind: a step that needs a node is quoted with
them. -/
def errorWith (c : Context) (predicates : List Expr) (err : EvalError) : Predicated → EvalError
  | behind _ => err
  | step axis test before =>
    match c.contextItem with
    | .error _ | .ok (.node _) => err
    | .ok item => stepError axis test (before ++ predicates) item

end Predicated

namespace Eval

variable {c : Context} {registry : Registry} {deeper : Deeper} {err : EvalError} {v : Item}

private theorem filtered_append (items : List Item) (before after : List Expr) :
    filtered registry deeper items (before ++ after) =
      filtered registry deeper items before >>= fun kept => filtered registry deeper kept after := by
  induction before generalizing items with
  | nil => simp [filtered]
  | cons e before ih => simp [filtered, ih]

/-- From a node, a step filters its candidates. -/
theorem expr_step_of_node {n : Node} (hn : c.contextItem = .ok (.node n)) (axis : Axis) (test : NodeTest)
    (predicates : List Expr) :
    (expr registry deeper (.step axis test predicates)).run.run c =
      (filtered registry deeper ((candidates c.forest axis test n).map .node) predicates >>=
        fun kept => pure (.ofList kept)).run.run c := by
  rw [expr, run_bind, run_reading, Context.stepNodes, hn]
  rfl

/-- A step does not get to its predicates unless the focus is on a node. -/
theorem expr_step_of_no_node (hn : ∀ n, c.contextItem ≠ .ok (.node n)) (axis : Axis) (test : NodeTest)
    (predicates : List Expr) :
    (expr registry deeper (.step axis test predicates)).run.run c =
      (.error (match c.contextItem with
        | .error err => err
        | .ok item => Predicated.stepError axis test predicates item), c) := by
  rw [expr, run_bind, run_reading, Context.stepNodes]
  cases hitem : c.contextItem with
  | error err => rfl
  | ok item =>
    cases item with
    | node n => exact absurd hitem (hn n)
    | _ => rfl

/-- The predicates of a step fail or leave some nodes. -/
theorem run_filtered_candidates (hr : registry.Keeps) (hd : deeper.Keeps) (axis : Axis) (test : NodeTest)
    (n : Node) (predicates : List Expr) :
    let filter := filtered registry deeper ((candidates c.forest axis test n).map .node) predicates
    (∃ err, filter.run.run c = (.error err, c)) ∨
      ∃ nodes : List Node, filter.run.run c = (.ok (nodes.map .node), c) := by
  intro filter
  have hrun : filter.run.run c = _ := (run_filtered hr hd axis test predicates n).2 c.focus
  rw [hrun]
  cases stepFrom registry deeper c axis test predicates n with
  | error err => exact Or.inl ⟨err, rfl⟩
  | ok nodes => exact Or.inr ⟨nodes, rfl⟩

/-- One more predicate filters the items of the value. -/
theorem run_put_concat (hr : registry.Keeps) (hd : deeper.Keeps) (place : Predicated)
    (predicates : List Expr) (p : Expr)
    (hv : (expr registry deeper (place.put predicates)).run.run c = (.ok v, c)) :
    (expr registry deeper (place.put (predicates ++ [p]))).run.run c =
      (filterItems v.items (expr registry deeper p) >>= fun kept => pure (.ofList kept)).run.run c := by
  cases place with
  | behind base =>
    rw [Predicated.put] at hv
    rw [Predicated.put, List.foldl_append, List.foldl_cons, List.foldl_nil, expr_link, run_bind, hv]
    simp [links]
  | step axis test before =>
    by_cases hnode : ∃ n, c.contextItem = .ok (.node n)
    · obtain ⟨n, hn⟩ := hnode
      rw [Predicated.put, expr_step_of_node hn, run_bind] at hv
      rw [Predicated.put, ← List.append_assoc, expr_step_of_node hn, filtered_append, bind_assoc, run_bind]
      rcases run_filtered_candidates (c := c) hr hd axis test n (before ++ predicates) with
        ⟨err, hrun⟩ | ⟨nodes, hrun⟩
      · rw [hrun] at hv
        exact nomatch congrArg Prod.fst hv
      · rw [hrun] at hv ⊢
        have hvalue : Item.ofList (nodes.map .node) = v := Except.ok.inj (congrArg Prod.fst hv)
        rw [← hvalue, Item.ofList_nodes, Item.items_ofNodes]
        simp [filtered]
    · rw [Predicated.put, expr_step_of_no_node (not_exists.mp hnode)] at hv
      exact nomatch congrArg Prod.fst hv

private theorem run_link_error {e : Expr} (he : (expr registry deeper e).run.run c = (.error err, c))
    (predicates : List Expr) :
    (expr registry deeper (predicates.foldl (fun e p => e.link (.predicate p)) e)).run.run c =
      (.error err, c) := by
  induction predicates generalizing e with
  | nil => exact he
  | cons p predicates ih =>
    refine ih ?_
    rw [expr_link, run_bind, he]

/-- Where there is no value, predicates do not change the error but for the step that it may quote. -/
theorem run_put_of_error (hr : registry.Keeps) (hd : deeper.Keeps) (place : Predicated)
    (predicates : List Expr)
    (herror : (expr registry deeper (place.put [])).run.run c = (.error err, c)) :
    (expr registry deeper (place.put predicates)).run.run c =
      (.error (place.errorWith c predicates err), c) := by
  cases place with
  | behind base => exact run_link_error herror predicates
  | step axis test before =>
    rw [Predicated.put, List.append_nil] at herror
    rw [Predicated.put]
    by_cases hnode : ∃ n, c.contextItem = .ok (.node n)
    · obtain ⟨n, hn⟩ := hnode
      have hsame : (Predicated.step axis test before).errorWith c predicates err = err := by
        rw [Predicated.errorWith, hn]
      rw [expr_step_of_node hn, run_bind] at herror
      rw [hsame, expr_step_of_node hn, filtered_append, bind_assoc, run_bind]
      rcases run_filtered_candidates (c := c) hr hd axis test n before with ⟨other, hrun⟩ | ⟨nodes, hrun⟩
      · rw [hrun] at herror ⊢
        exact herror
      · rw [hrun] at herror
        exact nomatch congrArg Prod.fst herror
    · rw [expr_step_of_no_node (not_exists.mp hnode)] at herror ⊢
      rw [Predicated.errorWith, ← Except.error.inj (congrArg Prod.fst herror)]
      cases hitem : c.contextItem with
      | error _ => rfl
      | ok item =>
        cases item with
        | node n => exact absurd ⟨n, hitem⟩ hnode
        | _ => rfl

/-- A number as a predicate and a comparison of `position()` with it leave the same: the item at this
position, in the order of the items in front, or nothing if there is none; and another predicate goes on
from there. If what stands in front has an error, this is the error with either predicate, except that
a step whose context item is no node is quoted as it is, with its own predicates. It is assumed that the
items are not more than a 64-bit integer can count. -/
theorem positional_predicates {c : Context} {k : QName} {i : Int64}
    (hk : c.lookup? k = some (.integer i)) (hdepth : c.depth < c.limits.depth) (place : Predicated)
    {p : Expr} (hp : p = .var k ∨ p = positionIs k) :
    let whole := ((evaluate Registry.library (place.put [])).run.run c).1
    (∀ v, whole = .ok v → (v.items.length : Int) ≤ Int64.maxValue.toInt →
      let picked : Item := .ofList (Item.at? v.items i.toInt).toList
      (evaluate Registry.library (place.put [p])).run.run c = (.ok picked, c) ∧
        ∀ q, (evaluate Registry.library (place.put [p, q])).run.run c =
          (filterItems picked.items (evaluate Registry.library q) >>= fun kept =>
            pure (.ofList kept)).run.run c) ∧
      ∀ err, whole = .error err → ∀ after,
        (evaluate Registry.library (place.put (p :: after))).run.run c =
          (.error (place.errorWith c (p :: after) err), c) := by
  intro whole
  have hr := Registry.keeps_library
  let deeper := deeperFrom Registry.library c
  have hd : deeper.Keeps := keeps_deeperFrom hr c
  have hpicks : Picks c i.toInt (expr Registry.library deeper p) := by
    rcases hp with rfl | rfl
    · exact picks_var hk
    · exact picks_positionIs hk hdepth
  have hwhole {r : Except EvalError Item} (h : whole = r) :
      (expr Registry.library deeper (place.put [])).run.run c = (r, c) := run_expr_of_evaluate hr h
  constructor
  · intro v hv hlength picked
    have hpicked : (expr Registry.library deeper (place.put [p])).run.run c = (.ok picked, c) := by
      rw [← List.nil_append [p], run_put_concat hr hd place [] p (hwhole hv), run_bind,
        hpicks.run_filterItems hlength]
      rfl
    refine ⟨(run_evaluate_expr _ c).trans hpicked, fun q => ?_⟩
    rw [run_evaluate_expr, show [p, q] = [p] ++ [q] from rfl, run_put_concat hr hd place [p] q hpicked, run_bind,
      run_bind, run_filterItems_evaluate hr]
  · intro err herror after
    exact (run_evaluate_expr _ c).trans (run_put_of_error hr hd place (p :: after) (hwhole herror))

/-- From the price of the second book back to the first node in front of it that is another book's
price, and to the text in it. -/
theorem positional_predicates_preceding :
    let c : Context :=
      { forest := #[Tree.catalogue], scopes := #[⟨none, [(.simple "k", .integer 1)]⟩],
        focus := some (.single (.node ⟨0, 14⟩)) }
    let place : Predicated := .step .preceding (.named (.simple "price")) []
    c.lookup? (.simple "k") = some (.integer 1) ∧ c.depth < c.limits.depth ∧
      (evaluate Registry.library (place.put [positionIs (.simple "k")])).run.run c =
        (.ok (.node ⟨0, 7⟩), c) := by
  intro c place
  have hk : c.lookup? (.simple "k") = some (.integer 1) := by rfl
  have hdepth : c.depth < c.limits.depth := by decide
  have hcandidates : candidates c.forest .preceding (.named (.simple "price")) ⟨0, 14⟩ = [⟨0, 7⟩] := by
    decide
  have hwhole : ((evaluate Registry.library (place.put [])).run.run c).1 = .ok (.node ⟨0, 7⟩) := by
    rw [run_evaluate_expr, Predicated.put, expr_step_of_node rfl, hcandidates]
    rfl
  exact ⟨hk, hdepth, ((positional_predicates hk hdepth place (Or.inr rfl)).1 _ hwhole (by decide)).1⟩

/-- The errors of a step that needs a node are not the same: each quotes its own predicate. -/
theorem positional_predicates_quoted :
    let c : Context :=
      { scopes := #[⟨none, [(.simple "k", .integer 1)]⟩], focus := some (.single (.integer 1)) }
    let place : Predicated := .step .child (.named (.simple "a")) []
    c.lookup? (.simple "k") = some (.integer 1) ∧ c.depth < c.limits.depth ∧
      (evaluate Registry.library (place.put [.var (.simple "k")])).run.run c ≠
        (evaluate Registry.library (place.put [positionIs (.simple "k")])).run.run c := by
  intro c place
  refine ⟨by rfl, by decide, fun hsame => ?_⟩
  have hnode : ∀ n, c.contextItem ≠ .ok (.node n) := fun n h => nomatch h
  rw [run_evaluate_expr, run_evaluate_expr, Predicated.put, Predicated.put,
    expr_step_of_no_node hnode, expr_step_of_no_node hnode] at hsame
  have hquoted := EvalError.typeError.inj (Except.error.inj (congrArg Prod.fst hsame))
  revert hquoted
  decide +kernel

end Eval

end TreeQuery
