import Mathlib.Algebra.GroupWithZero.Nat
import TreeQuery.Proofs.Item.Flat

/-!
# Items of values that are put together

A sequence that is put together has the items of its members, in their order, if `nil` is not among them.
`nil` has no items, but it is spliced into a sequence as an item of its own: there it counts, unless nothing
else is spliced in, so that the sequence is `nil` again.
-/

namespace TreeQuery.Item

/-- A value that is no error, and whose items can stand in a sequence: a single item is no sequence. -/
def Joinable (v : Item) : Prop :=
  v.error? = none ∧ ∀ items, v = .sequence items → items.length ≠ 1 ∧ ∀ i ∈ items, i.Plain

variable {v : Item} {values : List Item}

private theorem spliced_eq_items (h : v ≠ .nil) : v.spliced = v.items := by
  cases v <;> first | rfl | contradiction

private theorem Joinable.plain (h : v.Joinable) : ∀ i ∈ v.spliced, i.Plain := by
  intro i hi
  cases v with
  | sequence items => exact (h.2 items rfl).2 i hi
  | error e => exact nomatch h.1
  | _ =>
    obtain rfl := List.mem_singleton.mp hi
    exact ⟨rfl, rfl⟩

/-- If there is nothing but one `nil` to splice in, there are no items. -/
theorem Joinable.items_eq_nil (h : v.Joinable) (hspliced : v.spliced.Sublist [.nil]) : v.items = [] := by
  cases v with
  | sequence items =>
    have hmost : items.length ≤ 1 := hspliced.length_le
    have hone := (h.2 items rfl).1
    have hnone : items.length = 0 := by omega
    exact List.length_eq_zero_iff.mp hnone
  | nil => rfl
  | _ => simp [spliced] at hspliced

private theorem items_ofItems {items : List Item} (h : ∀ i ∈ items, i.Plain) (hnil : items ≠ [.nil]) :
    (ofItems items).items = items := by
  rw [← spliced_eq_items, spliced_ofItems h]
  intro heq
  have hspliced := spliced_ofItems h
  rw [heq] at hspliced
  exact hnil hspliced.symm

private theorem length_items_le (values : List Item) :
    (values.flatMap items).length ≤ (values.flatMap spliced).length := by
  induction values with
  | nil => exact Nat.le_refl _
  | cons v values ih =>
    have hv : v.items.length ≤ v.spliced.length := by cases v <;> simp [items, spliced]
    simp only [List.flatMap_cons, List.length_append]
    omega

/-- Every `nil` is spliced in without having items. -/
theorem length_items_lt (h : .nil ∈ values) :
    (values.flatMap items).length < (values.flatMap spliced).length := by
  obtain ⟨before, after, rfl⟩ := List.append_of_mem h
  have hbefore := length_items_le before
  have hafter := length_items_le after
  simp only [List.flatMap_append, List.flatMap_cons, List.length_append, items, spliced,
    List.length_nil, List.length_singleton]
  omega

/-- `nil` is not spliced in, or nothing else is. -/
def NilApart (values : List Item) : Prop := .nil ∉ values ∨ values.flatMap spliced = [.nil]

/-- What is spliced together are the items, and a single `nil` has none. -/
theorem items_ofList_cases (h : ∀ v ∈ values, v.Joinable) :
    (values.flatMap spliced = [.nil] ∧ (ofList values).items = [] ∧ values.flatMap items = []) ∨
      (values.flatMap spliced ≠ [.nil] ∧ (ofList values).items = values.flatMap spliced) := by
  have hnone : ∀ v ∈ values, v.error? = none := fun v hv => (h v hv).1
  have hlist : ofList values = ofItems (values.flatMap spliced) := by
    rw [ofList, List.findSome?_eq_none_iff.mpr hnone]
  by_cases hnil : values.flatMap spliced = [.nil]
  · refine .inl ⟨hnil, by rw [hlist, hnil]; rfl, List.flatMap_eq_nil_iff.mpr fun v hv => ?_⟩
    refine (h v hv).items_eq_nil ?_
    rw [← hnil, List.flatMap_def]
    exact List.sublist_flatten_of_mem (List.mem_map_of_mem hv)
  · refine .inr ⟨hnil, hlist ▸ items_ofItems (fun i hi => ?_) hnil⟩
    obtain ⟨v, hv, hi⟩ := List.mem_flatMap.mp hi
    exact (h v hv).plain i hi

/-- A sequence that is put together has the items of its members, in their order. -/
theorem items_ofList (h : ∀ v ∈ values, v.Joinable) (hnil : NilApart values) :
    (ofList values).items = values.flatMap items := by
  rcases items_ofList_cases h with ⟨-, hlist, hitems⟩ | ⟨hne, hlist⟩
  · rw [hlist, hitems]
  · have hmem : .nil ∉ values := hnil.resolve_right hne
    rw [hlist]
    exact List.flatMap_congr fun v hv => spliced_eq_items fun heq => hmem (heq ▸ hv)

/-- Sequences that are put together have as many items as their members together if `nil` stays apart, and
more if not. So they have the items of their members exactly if it does. -/
theorem count_ofList_iff (h : ∀ v ∈ values, v.Joinable) :
    (values.map count).sum ≤ (ofList values).count ∧
      ((ofList values).count = (values.map count).sum ↔ NilApart values) ∧
      ((ofList values).items = values.flatMap items ↔ NilApart values) := by
  have hsum : (values.map count).sum = (values.flatMap items).length := List.length_flatMap.symm
  by_cases hnil : NilApart values
  · have hitems := items_ofList h hnil
    have hcount : (ofList values).count = (values.map count).sum := by rw [count, hitems, hsum]
    exact ⟨Nat.le_of_eq hcount.symm, iff_of_true hcount hnil, iff_of_true hitems hnil⟩
  · obtain ⟨hmem, hne⟩ := not_or.mp hnil
    rcases items_ofList_cases h with ⟨heq, -⟩ | ⟨-, hlist⟩
    · exact absurd heq hne
    · have hlt : (values.map count).sum < (ofList values).count := by
        rw [hsum, count, hlist]
        exact length_items_lt (not_not.mp hmem)
      have hcount : (ofList values).count ≠ (values.map count).sum := Nat.ne_of_gt hlt
      refine ⟨Nat.le_of_lt hlt, iff_of_false hcount hnil, iff_of_false (fun heq => hcount ?_) hnil⟩
      rw [count, heq, hsum]

/-- Where `nil` stays apart, a sequence is empty if all of its members are. -/
theorem isEmpty_ofList_iff (h : ∀ v ∈ values, v.Joinable) (hnil : NilApart values) :
    (ofList values).isEmpty = true ↔ ∀ v ∈ values, v.isEmpty = true := by
  simp only [isEmpty, items_ofList h hnil, List.isEmpty_iff, List.flatMap_eq_nil_iff]

/-- Of `nil` and a number, which have one item together, a sequence of two is made. -/
theorem count_nil_and_integer :
    let values : List Item := [.nil, .integer 1]
    (∀ v ∈ values, v.Joinable) ∧ (values.map count).sum = 1 ∧ (ofList values).count = 2 ∧
      ¬ NilApart values := by
  intro values
  have hjoinable : ∀ v ∈ values, v.Joinable := by
    simp [values, Joinable, error?]
  refine ⟨hjoinable, rfl, rfl, fun hnil => ?_⟩
  exact absurd ((count_ofList_iff hjoinable).2.1.mpr hnil) (by decide)

end TreeQuery.Item
