import TreeQuery.Operator.Joining
import TreeQuery.Proofs.Evaluation.Paths
import TreeQuery.Proofs.Forest

/-!
# Set operators compute sets of nodes

A set operator keeps nodes of its operands and sorts them. It does not matter for the result whether
the right operand is looked at where it has nothing new to add, so the documents stand in the order
in which they first occur in both operands. The laws of sets hold in one document, because there is
only one way to sort its nodes.
-/

namespace TreeQuery

variable {forest : Forest}

/-! ### The nodes that are kept -/

/-- Whether a set operator keeps a node. -/
def SetOp.Keeps (op : SetOp) (left right : List Node) (n : Node) : Prop :=
  match op with
  | .union => n ∈ left ∨ n ∈ right
  | .intersect => n ∈ left ∧ n ∈ right
  | .except => n ∈ left ∧ n ∉ right

instance (op : SetOp) (left right : List Node) (n : Node) : Decidable (op.Keeps left right n) :=
  match op with
  | .union => inferInstanceAs (Decidable (n ∈ left ∨ n ∈ right))
  | .intersect => inferInstanceAs (Decidable (n ∈ left ∧ n ∈ right))
  | .except => inferInstanceAs (Decidable (n ∈ left ∧ n ∉ right))

namespace SetOp

/-- Whether the order of the operands does not matter. -/
def isSymmetric : SetOp → Bool
  | .union | .intersect => true
  | .except => false

variable {op : SetOp} {left right : List Node} {n : Node}

@[simp] private theorem keeps_union : union.Keeps left right n ↔ n ∈ left ∨ n ∈ right := Iff.rfl

@[simp] private theorem keeps_intersect : intersect.Keeps left right n ↔ n ∈ left ∧ n ∈ right := Iff.rfl

@[simp] private theorem keeps_except : except.Keeps left right n ↔ n ∈ left ∧ n ∉ right := Iff.rfl

private theorem mem_select : n ∈ op.select left right ↔ op.Keeps left right n := by
  cases op <;> simp [select]

private theorem Keeps.mem (h : op.Keeps left right n) : n ∈ left ++ right := by
  rw [List.mem_append]
  cases op with
  | union => exact h
  | intersect => exact Or.inl h.1
  | except => exact Or.inl h.1

private theorem mem_filter_keeps :
    n ∈ (left ++ right).filter (fun n => op.Keeps left right n) ↔ op.Keeps left right n := by
  rw [List.mem_filter, decide_eq_true_iff]
  exact ⟨fun h => h.2, fun h => ⟨h.mem, h⟩⟩

/-- What is kept of both operands is what is selected and, of the right one, only nodes that are
selected already. -/
theorem filter_keeps (op : SetOp) (left right : List Node) :
    ∃ again, (left ++ right).filter (fun n => op.Keeps left right n) =
      op.select left right ++ again ∧ ∀ n ∈ again, n ∈ op.select left right := by
  cases op with
  | union =>
    refine ⟨[], ?_, nofun⟩
    rw [List.append_nil]
    apply List.filter_eq_self.mpr
    intro n hn
    exact decide_eq_true (List.mem_append.mp hn)
  | intersect =>
    refine ⟨right.filter fun n => n ∈ left, ?_, fun n hn => ?_⟩
    · rw [List.filter_append]
      congr 1
      · apply List.filter_congr
        intro n hn
        simp [hn]
      · apply List.filter_congr
        intro n hn
        simp [hn]
    · rw [List.mem_filter, decide_eq_true_iff] at hn
      exact mem_select.mpr hn.symm
  | except =>
    refine ⟨[], ?_, nofun⟩
    have hnone : right.filter (fun n => except.Keeps left right n) = [] := by
      rw [List.filter_eq_nil_iff]
      intro n hn h
      exact (of_decide_eq_true h).2 hn
    rw [List.filter_append, hnone, select]
    congr 1
    apply List.filter_congr
    intro n hn
    simp [hn]

end SetOp

namespace Node

variable {nodes more result : List Node}

/-- Nodes that have occurred before do not change how documents are ordered. -/
theorem IsSorting.append (h : IsSorting forest nodes result) (hmore : ∀ n ∈ more, n ∈ nodes) :
    IsSorting forest (nodes ++ more) result := by
  have hfirst {n : Node} (hn : n ∈ result) :
      ((nodes ++ more).map (·.document)).idxOf n.document =
        (nodes.map (·.document)).idxOf n.document := by
    rw [List.map_append]
    exact List.idxOf_append_of_mem (List.mem_map_of_mem ((h.mem_iff n).mp hn))
  refine ⟨h.nodup, fun n => ?_, h.together, h.pairwise.imp_of_mem fun {a b} ha hb hab => ?_⟩
  · rw [h.mem_iff, List.mem_append]
    exact ⟨Or.inl, fun hn => hn.elim (fun hn => hn) (hmore n)⟩
  · rw [Precedes, hfirst ha, hfirst hb]
    exact hab

/-- What a set operator selects, sorted, is a sorting of all that it keeps of its operands. -/
theorem isSorting_select (hforest : ∀ t ∈ forest, t.Grown) (op : SetOp) {left right : List Node}
    (hnodes : ∀ n ∈ left ++ right, n.IsIn forest) :
    IsSorting forest ((left ++ right).filter fun n => op.Keeps left right n)
      (sorted forest (op.select left right)) := by
  obtain ⟨again, heq, hagain⟩ := op.filter_keeps left right
  have hselect : ∀ n ∈ op.select left right, n.IsIn forest :=
    fun n hn => hnodes n (SetOp.mem_select.mp hn).mem
  rw [heq]
  exact (isSorting_sorted hforest hselect).append hagain

end Node

/-! ### The values -/

namespace Item

/-- A value that is a sequence of these nodes, which are there. -/
structure HasNodes (forest : Forest) (value : Item) (nodes : List Node) : Prop where
  /-- Its items are the nodes. -/
  items : value.items = nodes.map .node
  /-- The nodes are those of documents that are known. -/
  isIn : ∀ n ∈ nodes, n.IsIn forest

/-- An item that is no node. -/
def isOther (item : Item) : Bool := item.node?.isNone

variable {left right third value : Item} {l r m nodes : List Node} {op : SetOp}

private theorem HasNodes.error? (h : value.HasNodes forest nodes) : value.error? = none := by
  cases value with
  | error e =>
    have hitems := h.items
    cases nodes with
    | nil => cases hitems
    | cons n nodes => cases hitems
  | _ => rfl

private theorem hasNodes_ofNodes (h : ∀ n ∈ nodes, n.IsIn forest) :
    (ofNodes nodes).HasNodes forest nodes :=
  ⟨items_ofNodes nodes, h⟩

private theorem hasNodes_empty : empty.HasNodes forest [] := ⟨rfl, nofun⟩

private theorem nodesFor_eq_ok (h : value.items = nodes.map .node) : value.nodesFor op = .ok nodes := by
  rw [nodesFor, h]
  clear h
  induction nodes with
  | nil => rfl
  | cons n nodes ih =>
    rw [List.map_cons, List.mapM_cons, ih]
    rfl

/-- What a set operator answers to an item that is no node. -/
def notNode (op : SetOp) (item : Item) : EvalError :=
  .typeError ("'" ++ op.symbol ++ "' requires node sequences, got " ++ item.typeName)

/-- An operand either is a sequence of nodes or fails at its first item that is none. -/
theorem nodesFor_cases (op : SetOp) (value : Item) :
    (∃ nodes : List Node, value.items = nodes.map .node) ∧ value.items.find? isOther = none ∨
      ∃ item, value.items.find? isOther = some item ∧
        value.nodesFor op = .error (notNode op item) := by
  rw [nodesFor]
  induction value.items with
  | nil => exact Or.inl ⟨⟨[], rfl⟩, rfl⟩
  | cons item items ih =>
    cases hitem : item.node? with
    | some n =>
      obtain rfl : item = .node n := by
        cases item <;> cases hitem
        rfl
      rcases ih with ⟨⟨nodes, rfl⟩, hnone⟩ | ⟨other, hfirst, herror⟩
      · exact Or.inl ⟨⟨n :: nodes, rfl⟩, hnone⟩
      · refine Or.inr ⟨other, hfirst, ?_⟩
        rw [List.mapM_cons, herror]
        rfl
    | none =>
      refine Or.inr ⟨item, ?_, ?_⟩
      · rw [List.find?_cons_of_pos (by rw [isOther, hitem]; rfl)]
      · rw [List.mapM_cons]
        cases item <;> first | rfl | cases hitem

private theorem combineNodes_eq_ok (hleft : left.HasNodes forest l) (hright : right.HasNodes forest r) :
    left.combineNodes forest op right = .ok (ofNodes (Node.sorted forest (op.select l r))) := by
  rw [combineNodes, onOperands, hleft.error?, hright.error?, nodesFor_eq_ok hleft.items,
    nodesFor_eq_ok hright.items]
  rfl

/-- The first item of both operands that is no node is reported. -/
theorem combineNodes_eq_error {item : Item} (hleft : left.error? = none)
    (hright : right.error? = none)
    (hitem : (left.items ++ right.items).find? isOther = some item) :
    left.combineNodes forest op right = .error (notNode op item) := by
  rw [combineNodes, onOperands, hleft, hright]
  rw [List.find?_append] at hitem
  rcases nodesFor_cases op left with ⟨⟨l, hl⟩, hnone⟩ | ⟨other, hfirst, herror⟩
  · rw [hnone, Option.none_or] at hitem
    rcases nodesFor_cases op right with ⟨-, hnone'⟩ | ⟨other, hfirst, herror⟩
    · rw [hnone'] at hitem
      contradiction
    · obtain rfl : other = item := Option.some.inj (hfirst.symm.trans hitem)
      simp only [nodesFor_eq_ok hl, herror]
      rfl
  · rw [hfirst, Option.some_or] at hitem
    obtain rfl : other = item := Option.some.inj hitem
    simp only [herror]
    rfl

/-! ### The laws of sets -/

/-- A value that is a sequence of these nodes of one document. -/
structure HasNodesOf (forest : Forest) (d : Nat) (value : Item) (nodes : List Node) : Prop extends
    value.HasNodes forest nodes where
  /-- The nodes are of the document. -/
  document : ∀ n ∈ nodes, n.document = d

/-- The laws of sets for the values of set operators. -/
structure ObeySetLaws (forest : Forest) (a b c : Item) : Prop where
  /-- The operands may change places. -/
  comm : ∀ op : SetOp, op.isSymmetric → a.combineNodes forest op b = b.combineNodes forest op a
  /-- Of two operators either may come first. -/
  assoc : ∀ op : SetOp, op.isSymmetric →
    (a.combineNodes forest op b >>= fun ab => ab.combineNodes forest op c) =
      (b.combineNodes forest op c >>= fun bc => a.combineNodes forest op bc)
  /-- Nothing comes of a value and itself but its own nodes. -/
  idem : ∀ op : SetOp, op.isSymmetric →
    a.combineNodes forest op a = a.combineNodes forest .union empty
  /-- What a set operator has made stays as it is. -/
  fixed : ∀ op op' : SetOp, op.isSymmetric → ∀ u,
    a.combineNodes forest op' b = .ok u → u.combineNodes forest op u = .ok u
  /-- The nodes of a value are those that are also in another one and those that are not. -/
  split : a.combineNodes forest .union empty = do
    let both ← a.combineNodes forest .intersect b
    let rest ← a.combineNodes forest .except b
    both.combineNodes forest .union rest

section OneDocument

variable {d : Nat} {a b c a' b' : Item} {l r k l' r' : List Node} {op op' : SetOp}

private theorem hasNodesOf_empty : empty.HasNodesOf forest d [] where
  toHasNodes := hasNodes_empty
  document := nofun

private theorem HasNodesOf.of_keeps (ha : a.HasNodesOf forest d l) (hb : b.HasNodesOf forest d r)
    {n : Node}
    (hn : op.Keeps l r n) : n.IsIn forest ∧ n.document = d := by
  rcases List.mem_append.mp hn.mem with hn | hn
  · exact ⟨ha.isIn n hn, ha.document n hn⟩
  · exact ⟨hb.isIn n hn, hb.document n hn⟩

/-- The nodes that an operator keeps are again nodes of the document. -/
theorem HasNodesOf.exists_combineNodes (hforest : ∀ t ∈ forest, t.Grown) (op : SetOp)
    (ha : a.HasNodesOf forest d l) (hb : b.HasNodesOf forest d r) :
    ∃ value nodes, a.combineNodes forest op b = .ok value ∧ value.HasNodesOf forest d nodes ∧
      ∀ n, n ∈ nodes ↔ op.Keeps l r n := by
  have hmem (n : Node) : n ∈ Node.sorted forest (op.select l r) ↔ op.Keeps l r n := by
    rw [Node.mem_sorted hforest, SetOp.mem_select]
    intro n hn
    exact (ha.of_keeps hb (SetOp.mem_select.mp hn)).1
  refine ⟨_, _, combineNodes_eq_ok ha.toHasNodes hb.toHasNodes, ⟨hasNodes_ofNodes ?_, ?_⟩, hmem⟩
  · exact fun n hn => (ha.of_keeps hb ((hmem n).mp hn)).1
  · exact fun n hn => (ha.of_keeps hb ((hmem n).mp hn)).2

/-- In one document the value depends on nothing but which nodes are kept. -/
theorem HasNodesOf.combineNodes_congr (hforest : ∀ t ∈ forest, t.Grown)
    (ha : a.HasNodesOf forest d l) (hb : b.HasNodesOf forest d r) (ha' : a'.HasNodesOf forest d l')
    (hb' : b'.HasNodesOf forest d r') (hmem : ∀ n, op.Keeps l r n ↔ op'.Keeps l' r' n) :
    a.combineNodes forest op b = a'.combineNodes forest op' b' := by
  have hkept {n : Node} (hn : n ∈ op'.select l' r') : n.IsIn forest ∧ n.document = d :=
    ha'.of_keeps hb' (SetOp.mem_select.mp hn)
  have hsorted : Node.sorted forest (op.select l r) = Node.sorted forest (op'.select l' r') := by
    apply Node.sorted_congr hforest
    · exact fun n hn => (hkept hn).1
    · exact fun x hx y hy => (hkept hx).2.trans (hkept hy).2.symm
    · exact fun n => SetOp.mem_select.trans ((hmem n).trans SetOp.mem_select.symm)
  rw [combineNodes_eq_ok ha.toHasNodes hb.toHasNodes,
    combineNodes_eq_ok ha'.toHasNodes hb'.toHasNodes, hsorted]

private theorem obeySetLaws (hforest : ∀ t ∈ forest, t.Grown) (ha : a.HasNodesOf forest d l)
    (hb : b.HasNodesOf forest d r) (hc : c.HasNodesOf forest d k) :
    ObeySetLaws forest a b c where
  comm op hop := by
    apply ha.combineNodes_congr hforest hb hb ha
    intro n
    cases op with
    | union => exact Or.comm
    | intersect => exact And.comm
    | except => contradiction
  assoc op hop := by
    obtain ⟨ab, lr, hab, hab', hlr⟩ := ha.exists_combineNodes hforest op hb
    obtain ⟨bc, rk, hbc, hbc', hrk⟩ := hb.exists_combineNodes hforest op hc
    rw [hab, hbc]
    apply hab'.combineNodes_congr hforest hc ha hbc'
    intro n
    cases op with
    | union =>
      rw [SetOp.keeps_union, SetOp.keeps_union, hlr, hrk]
      exact or_assoc
    | intersect =>
      rw [SetOp.keeps_intersect, SetOp.keeps_intersect, hlr, hrk]
      exact and_assoc
    | except => contradiction
  idem op hop := by
    apply ha.combineNodes_congr hforest ha ha hasNodesOf_empty
    intro n
    cases op with
    | union => simp
    | intersect => simp
    | except => contradiction
  fixed op op' hop u hu := by
    obtain ⟨v, lr, hv, hv', hlr⟩ := ha.exists_combineNodes hforest op' hb
    obtain rfl : v = u := Except.ok.inj (hv.symm.trans hu)
    rw [← hu]
    apply hv'.combineNodes_congr hforest hv' ha hb
    intro n
    cases op with
    | union => rw [SetOp.keeps_union, or_self, hlr]
    | intersect => rw [SetOp.keeps_intersect, and_self, hlr]
    | except => contradiction
  split := by
    obtain ⟨both, lr, hboth, hboth', hlr⟩ := ha.exists_combineNodes hforest .intersect hb
    obtain ⟨rest, lr', hrest, hrest', hlr'⟩ := ha.exists_combineNodes hforest .except hb
    rw [hboth, hrest]
    apply ha.combineNodes_congr hforest hasNodesOf_empty hboth' hrest'
    intro n
    rw [SetOp.keeps_union, SetOp.keeps_union, hlr, hlr', SetOp.keeps_intersect,
      SetOp.keeps_except, ← and_or_left]
    simp [Decidable.em]

end OneDocument

/-- A set operator whose operands are sequences of nodes keeps the nodes that are in either operand, in
both or in the left one only, each once, document by document as these first occur and in document
order in each; a single node is the value. Where there is one document only this obeys the laws of
sets. An item that is no node is reported, and an operand that is an error is the result. -/
theorem combineNodes_computes_sets (hforest : ∀ t ∈ forest, t.Grown) (op : SetOp)
    (left right : Item) :
    (∀ l r, left.HasNodes forest l → right.HasNodes forest r →
      (∃ result, left.combineNodes forest op right = .ok (ofNodes result) ∧
        (∀ n, n ∈ result ↔ op.Keeps l r n) ∧
        Node.IsSorting forest ((l ++ r).filter fun n => op.Keeps l r n) result) ∧
      ∀ n, (∀ m, op.Keeps l r m ↔ m = n) → left.combineNodes forest op right = .ok (.node n)) ∧
      (∀ d l r third k, left.HasNodesOf forest d l → right.HasNodesOf forest d r →
        third.HasNodesOf forest d k → ObeySetLaws forest left right third) ∧
      (∀ item, left.error? = none → right.error? = none →
        (left.items ++ right.items).find? isOther = some item →
        left.combineNodes forest op right = .error (notNode op item)) ∧
      ∀ e, left.error?.or right.error? = some e →
        left.combineNodes forest op right = .error e := by
  refine ⟨fun l r hl hr => ?_, fun d l r third k ha hb hc => obeySetLaws hforest ha hb hc,
    fun item hleft hright => combineNodes_eq_error hleft hright, fun e he => ?_⟩
  · have hin : ∀ n ∈ l ++ r, n.IsIn forest :=
      fun n hn => (List.mem_append.mp hn).elim (hl.isIn n) (hr.isIn n)
    have hvalue : left.combineNodes forest op right =
        .ok (ofNodes (Node.sorted forest (op.select l r))) := combineNodes_eq_ok hl hr
    have hsorting := Node.isSorting_select hforest op hin
    have hmem : ∀ n, n ∈ Node.sorted forest (op.select l r) ↔ op.Keeps l r n := by
      intro n
      rw [hsorting.mem_iff, SetOp.mem_filter_keeps]
    refine ⟨⟨_, hvalue, hmem, hsorting⟩, fun n hone => ?_⟩
    have hsingle : Node.sorted forest (op.select l r) = [n] := by
      apply List.perm_singleton.mp
      apply (List.perm_ext_iff_of_nodup hsorting.nodup (List.nodup_singleton n)).mpr
      intro m
      rw [hmem, hone, List.mem_singleton]
    rw [hvalue, hsingle]
    rfl
  · rw [combineNodes, onOperands]
    cases hleft : left.error? with
    | some e' =>
      rw [hleft, Option.some_or] at he
      rw [Option.some.inj he]
    | none =>
      rw [hleft, Option.none_or] at he
      rw [he]

/-- Nodes of the catalogue and of a second document, some of them twice, and operands that are not
only nodes. -/
theorem combineNodes_computes_sets_catalogue :
    let forest : Forest := #[Tree.catalogue, Tree.empty.addLeaf 0 (.simple "note") "new"]
    let left : List Node := [⟨1, 2⟩, ⟨0, 12⟩, ⟨0, 3⟩, ⟨1, 1⟩, ⟨0, 12⟩]
    let right : List Node := [⟨0, 12⟩, ⟨0, 2⟩, ⟨1, 2⟩]
    let book : Item := .node ⟨0, 2⟩
    let books : Item := .sequence [.node ⟨0, 10⟩, .node ⟨0, 2⟩, .node ⟨0, 10⟩]
    (∃ result, (ofNodes left).combineNodes forest .intersect (ofNodes right) =
        .ok (ofNodes result) ∧
      (∀ n, n ∈ result ↔ n ∈ left ∧ n ∈ right) ∧
      Node.IsSorting forest [⟨1, 2⟩, ⟨0, 12⟩, ⟨0, 12⟩, ⟨0, 12⟩, ⟨1, 2⟩] result) ∧
      books.combineNodes forest .except book = .ok (.node ⟨0, 10⟩) ∧
      ObeySetLaws forest books book empty ∧
      books.combineNodes forest .union (.sequence [book, .integer 1, .nil]) =
        .error (.typeError "'|' requires node sequences, got xs:integer") ∧
      books.combineNodes forest .union (.error .divisionByZero) = .error .divisionByZero := by
  intro forest left right book books
  have hforest : ∀ t ∈ forest, t.Grown := by
    have hnote : (Tree.empty.addLeaf 0 (.simple "note") "new").Grown :=
      .addChild (.addChild .empty (by decide) (by decide) _ _) (by decide) (by decide) _ _
    simpa [forest] using And.intro Tree.built_catalogue.grown hnote
  have hleft : (ofNodes left).HasNodes forest left := ⟨rfl, by decide⟩
  have hright : (ofNodes right).HasNodes forest right := ⟨rfl, by decide⟩
  have hbook : book.HasNodesOf forest 0 [⟨0, 2⟩] := ⟨⟨rfl, by decide⟩, by decide⟩
  have hbooks : books.HasNodesOf forest 0 [⟨0, 10⟩, ⟨0, 2⟩, ⟨0, 10⟩] :=
    ⟨⟨rfl, by decide⟩, by decide⟩
  have hbetween := combineNodes_computes_sets hforest .intersect (ofNodes left) (ofNodes right)
  have hwithin := combineNodes_computes_sets hforest .except books book
  have hmixed :=
    combineNodes_computes_sets hforest .union books (.sequence [book, .integer 1, .nil])
  have hfailed := combineNodes_computes_sets hforest .union books (.error .divisionByZero)
  refine ⟨(hbetween.1 _ _ hleft hright).1, ?_, hwithin.2.1 0 _ _ _ _ hbooks hbook hasNodesOf_empty,
    hmixed.2.2.1 _ rfl rfl rfl, hfailed.2.2.2 _ rfl⟩
  apply (hwithin.1 _ _ hbooks.toHasNodes hbook.toHasNodes).2
  intro m
  simp only [SetOp.keeps_except, List.mem_cons, List.not_mem_nil, or_false]
  constructor
  · rintro ⟨h | h | h, hne⟩
    · exact h
    · exact absurd h hne
    · exact h
  · rintro rfl
    decide

end Item

end TreeQuery
