import TreeQuery.Proofs.Item.Atomize
import TreeQuery.Proofs.Number.Order
import TreeQuery.Proofs.Search

/-!
# General comparisons

A general comparison asks for one pair of values after another, the left values in the outer loop, until a
pair is related. Two values are read alike whichever side the untyped one is on, and their order in one
direction is the mirrored one in the other; so the comparison with the sides exchanged and the relation
mirrored asks the same of every pair. It need not fail at the same one, because the pairs are asked for in
another order.
-/

namespace TreeQuery

/-! ### Mirrored relations -/

/-- The relation that holds of two values when this one holds of them with the sides exchanged. -/
def Relation.mirror : Relation → Relation
  | .eq => .eq
  | .ne => .ne
  | .lt => .gt
  | .le => .ge
  | .gt => .lt
  | .ge => .le

private theorem Relation.holds_mirror (relation : Relation) (order : Option Ordering) :
    relation.mirror.holds (order.map Ordering.swap) = relation.holds order := by
  cases order with
  | none => cases relation <;> rfl
  | some o => cases relation <;> cases o <;> rfl

namespace Atomic

variable {a b : Atomic}

/-- An untyped text is read as the same value on both sides. -/
theorem readAsPartners_swap (a b : Atomic) :
    readAsPartners b a = (readAsPartners a b).map Prod.swap := by
  have hread (r : Except EvalError Atomic) (f g : Atomic → Atomic × Atomic) (h : ∀ x, g x = (f x).swap) :
      r.map g = (r.map f).map Prod.swap := by
    cases r with
    | error e => rfl
    | ok x => exact congrArg Except.ok (h x)
  cases a with
  | untyped s =>
    cases b with
    | untyped t => rfl
    | _ =>
      simp only [readAsPartners]
      exact hread _ _ _ fun _ => rfl
  | _ =>
    cases b with
    | untyped t =>
      simp only [readAsPartners]
      exact hread _ _ _ fun _ => rfl
    | _ => rfl

/-- Two numbers are compared as numbers. -/
theorem order_numbers {symbol : String} {x y : Numeric} (ha : a.number? = some x) (hb : b.number? = some y) :
    order symbol a b = .ok (x.compare y) := by
  unfold order
  rw [ha, hb]

/-- Two values that have an order, or have none without an error, are mirrored by exchanging the sides. -/
theorem order_swap {symbol symbol' : String} {o : Option Ordering} (h : order symbol a b = .ok o) :
    order symbol' b a = .ok (o.map Ordering.swap) := by
  unfold order at h
  split at h
  · next x y ha hb =>
    obtain rfl := Except.ok.inj h
    rw [order_numbers hb ha, Numeric.compare_swap]
  · split at h
    case h_6 => contradiction
    -- two texts, each of which may be untyped, or two truth values
    all_goals
      obtain rfl := Except.ok.inj h
      exact congrArg (fun o => Except.ok (some o)) Std.OrientedCmp.eq_swap

/-- Two values that can be compared are related in one direction as they are in the other. -/
theorem related_mirror {relation : Relation} {r : Bool} (h : a.related relation b = .ok r) :
    b.related relation.mirror a = .ok r := by
  rw [related] at h ⊢
  rw [readAsPartners_swap]
  cases hread : readAsPartners a b with
  | error e => rw [hread] at h; contradiction
  | ok read =>
    rw [hread] at h
    change (do return relation.holds (← order _ read.1 read.2)) = _ at h
    change (do return relation.mirror.holds (← order _ read.2 read.1)) = _
    cases horder : order (Comparison.general relation).symbol read.1 read.2 with
    | error e => rw [horder] at h; contradiction
    | ok o =>
      rw [horder] at h
      rw [order_swap horder, ← Except.ok.inj h]
      exact congrArg Except.ok (relation.holds_mirror o)

end Atomic

namespace Item

variable {forest : Forest} {left right : Item} {as bs : List Atomic}

/-- What a general comparison finds out about a pair. -/
def pairRelated (relation : Relation) (pair : Atomic × Atomic) : Except EvalError Bool :=
  pair.1.related relation pair.2

/-- A general comparison is a search through the pairs, the left values in the outer loop. -/
theorem compareAny_eq (relation : Relation) (hleft : left.atomize forest = .ok as)
    (hright : right.atomize forest = .ok bs) :
    compareAny forest relation left right =
      (Quantifier.some.search (pairRelated relation) (as.product bs)).map .boolean := by
  rw [compareAny, onOperands, error?_of_atomize hleft, error?_of_atomize hright, hleft, hright,
    Quantifier.search_product]
  exact bind_pure_comp (m := Except EvalError) boolean _

/-- With the sides exchanged and the relation mirrored, every pair has the same outcome. -/
theorem pairRelated_mirror {relation : Relation}
    (h : ∀ p ∈ as.product bs, ∃ b, pairRelated relation p = .ok b) {p : Atomic × Atomic}
    (hp : p ∈ bs.product as) :
    p.swap ∈ as.product bs ∧ pairRelated relation.mirror p = pairRelated relation p.swap := by
  have hswap : p.swap ∈ as.product bs := List.mem_product.mpr (List.mem_product.mp hp).symm
  obtain ⟨b, hb⟩ := h p.swap hswap
  exact ⟨hswap, (Atomic.related_mirror hb).trans hb.symm⟩

section

variable {relation : Relation}

/-- Unless a failure stands in front of all pairs that are related, a general comparison finds out whether
there are any. -/
theorem compareAny_of_not_failsFirst (hleft : left.atomize forest = .ok as)
    (hright : right.atomize forest = .ok bs)
    (h : ¬ Quantifier.FailsFirst (pairRelated relation) (as.product bs)) :
    ∃ b, compareAny forest relation left right = .ok (.boolean b) ∧
      (b = true ↔ ∃ p ∈ as.product bs, pairRelated relation p = .ok true) := by
  obtain ⟨b, hb, hyes⟩ := Quantifier.some_search_of_not_failsFirst h
  exact ⟨b, by rw [compareAny_eq relation hleft hright, hb]; rfl, hyes⟩

/-- Where all pairs can be compared, the order in which they are asked for does not matter. -/
theorem compareAny_mirror (hleft : left.atomize forest = .ok as) (hright : right.atomize forest = .ok bs)
    (hpairs : ∀ p ∈ as.product bs, ∃ b, pairRelated relation p = .ok b) :
    compareAny forest relation left right = compareAny forest relation.mirror right left := by
  have hnone : ¬ Quantifier.FailsFirst (pairRelated relation.mirror) (bs.product as) := by
    refine Quantifier.not_failsFirst fun p hp => ?_
    obtain ⟨hswap, hsame⟩ := pairRelated_mirror hpairs hp
    rw [hsame]
    exact hpairs _ hswap
  obtain ⟨b, hb, hyes⟩ :=
    compareAny_of_not_failsFirst hleft hright (Quantifier.not_failsFirst hpairs)
  obtain ⟨b', hb', hyes'⟩ := compareAny_of_not_failsFirst hright hleft hnone
  have hsame : b = b' := by
    rw [Bool.eq_iff_iff, hyes, hyes']
    constructor
    · rintro ⟨p, hp, htrue⟩
      have hswap : p.swap ∈ bs.product as := List.mem_product.mpr (List.mem_product.mp hp).symm
      exact ⟨p.swap, hswap, (pairRelated_mirror hpairs hswap).2.trans htrue⟩
    · rintro ⟨p, hp, htrue⟩
      obtain ⟨hswap, hsame⟩ := pairRelated_mirror hpairs hp
      exact ⟨p.swap, hswap, hsame.symm.trans htrue⟩
  rw [hb, hb', hsame]

/-- If all pairs can be compared, where an untyped text is read as the type of its partner, a general
comparison is true exactly if some pair is related, and it is the mirrored comparison with the sides
exchanged. If some pairs cannot be compared, it is an error exactly if one of them stands in front of all
pairs that are related, the left values being those of the outer loop; otherwise they make no
difference. -/
theorem compare_general (relation : Relation) (hleft : left.atomize forest = .ok as)
    (hright : right.atomize forest = .ok bs) :
    let result := compare forest (.general relation) left right
    let pairs := as.product bs
    let related := pairRelated relation
    ((∀ p ∈ pairs, ∃ b, related p = .ok b) →
      (∃ b, result = .ok (.boolean b) ∧ (b = true ↔ ∃ p ∈ pairs, related p = .ok true)) ∧
      result = compare forest (.general relation.mirror) right left) ∧
    ((∃ e, result = .error e) ↔ Quantifier.FailsFirst related pairs) ∧
    (¬ Quantifier.FailsFirst related pairs →
      ∃ b, result = .ok (.boolean b) ∧ (b = true ↔ ∃ p ∈ pairs, related p = .ok true)) := by
  intro result pairs related
  refine ⟨fun hpairs => ⟨?_, compareAny_mirror hleft hright hpairs⟩, ?_,
    compareAny_of_not_failsFirst hleft hright⟩
  · exact compareAny_of_not_failsFirst hleft hright (Quantifier.not_failsFirst hpairs)
  · have hresult : result = (Quantifier.some.search related pairs).map .boolean :=
      compareAny_eq relation hleft hright
    rw [← Quantifier.some_search_eq_error_iff, hresult]
    cases Quantifier.some.search related pairs with
    | error e => exact iff_of_true ⟨e, rfl⟩ ⟨e, rfl⟩
    | ok b => exact iff_of_false nofun nofun

/-- A text in a tree is read as a number next to a number. Behind a text that is related to it, a string
makes no difference; behind one that is not, it is an error. -/
theorem compare_general_texts :
    let forest : Forest := #[Tree.empty.addLeaf 0 (.simple "note") "10"]
    let note : Item := .node ⟨0, 1⟩
    let left : Item := .sequence [note, .string "a"]
    let texts : List Atomic := [.untyped "10", .string "a"]
    note.atomize forest = .ok [.untyped "10"] ∧ left.atomize forest = .ok texts ∧
      (Item.integer 9).atomize forest = .ok [.integer 9] ∧
      compare forest (.general .gt) left (.integer 9) = .ok (.boolean true) ∧
      (∃ e, compare forest (.general .lt) left (.integer 9) = .error e) ∧
      compare forest (.general .lt) (.integer 9) note = .ok (.boolean true) := by
  intro forest note left texts
  have hnote : note.atomize forest = .ok [.untyped "10"] := rfl
  have hleft : left.atomize forest = .ok texts := rfl
  have hright : (Item.integer 9).atomize forest = .ok [.integer 9] := rfl
  have hgreater : pairRelated .gt (.untyped "10", .integer 9) = .ok true := rfl
  have hless : pairRelated .lt (.untyped "10", .integer 9) = .ok false := rfl
  refine ⟨hnote, hleft, hright, ?_, ?_, ?_⟩
  · have hopen : ¬ Quantifier.FailsFirst (pairRelated .gt) (texts.product [.integer 9]) := by
      change ¬ Quantifier.FailsFirst (pairRelated .gt)
        [(.untyped "10", .integer 9), (.string "a", .integer 9)]
      rw [Quantifier.failsFirst_cons, hgreater]
      simp
    obtain ⟨b, hresult, hyes⟩ := (compare_general .gt hleft hright).2.2 hopen
    rw [hresult, hyes.mpr ⟨_, List.mem_cons_self, hgreater⟩]
  · refine (compare_general .lt hleft hright).2.1.mpr
      ⟨[(.untyped "10", .integer 9)], _, [], rfl, ⟨_, rfl⟩, ?_⟩
    rw [List.forall_mem_singleton, hless]
    nofun
  · have hpairs : ∀ p ∈ List.product [.untyped "10"] [.integer 9], ∃ b, pairRelated .gt p = .ok b :=
      List.forall_mem_singleton.mpr ⟨true, hgreater⟩
    obtain ⟨⟨b, hresult, hyes⟩, hmirror⟩ := (compare_general .gt hnote hright).1 hpairs
    exact hmirror.symm.trans (by rw [hresult, hyes.mpr ⟨_, List.mem_cons_self, hgreater⟩])

end

end Item

end TreeQuery
