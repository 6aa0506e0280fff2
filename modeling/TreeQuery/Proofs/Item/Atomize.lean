import TreeQuery.Item.Atomize
import TreeQuery.Proofs.Item.WellFormed

/-!
# Atomic values of sequences

The atomic values of a sequence are those of its items, one behind the other, and the first item without
atomic values decides the error. Putting values together in a sequence changes nothing about that. An
atomic value alone is its own only one, except that an untyped text has become a string.
-/

namespace TreeQuery.Item

variable {forest : Forest}

/-- The atomic values of some items, one behind the other. -/
def atomizeEach (forest : Forest) (items : List Item) : Except EvalError (List Atomic) :=
  (items.mapM (atomize forest)).map List.flatten

private theorem atomizeEach_nil : atomizeEach forest [] = .ok [] := rfl

/-- Items are atomized one after another, up to the first error. -/
theorem atomizeEach_cons (item : Item) (items : List Item) :
    atomizeEach forest (item :: items) =
      (item.atomize forest).bind fun as => (atomizeEach forest items).map (as ++ ·) := by
  rw [atomizeEach, List.mapM_cons]
  cases item.atomize forest with
  | error e => rfl
  | ok as =>
    change (items.mapM (atomize forest) >>= fun lists => pure (as :: lists)).map List.flatten =
      (atomizeEach forest items).map (as ++ ·)
    rw [atomizeEach]
    cases items.mapM (atomize forest) <;> rfl

private theorem atomizeEach_append (as bs : List Item) :
    atomizeEach forest (as ++ bs) =
      (atomizeEach forest as).bind fun xs => (atomizeEach forest bs).map (xs ++ ·) := by
  induction as with
  | nil =>
    rw [List.nil_append, atomizeEach_nil]
    change _ = (atomizeEach forest bs).map fun ys => [] ++ ys
    cases atomizeEach forest bs <;> rfl
  | cons a as ih =>
    rw [List.cons_append, atomizeEach_cons, atomizeEach_cons, ih]
    rcases a.atomize forest with _ | xs
    · rfl
    · rcases atomizeEach forest as with _ | ys
      · rfl
      · rcases atomizeEach forest bs with _ | zs
        · rfl
        · exact congrArg Except.ok (List.append_assoc xs ys zs).symm

/-! ### Behind other values -/

/-- Values behind others. -/
def behind (found : Array Atomic) (r : Except EvalError (List Atomic)) : Except EvalError (Array Atomic) :=
  r.map fun as => found ++ as.toArray

private theorem behind_cons (found : Array Atomic) (as : List Atomic)
    (r : Except EvalError (List Atomic)) :
    behind (found ++ as.toArray) r = behind found (r.map (as ++ ·)) := by
  cases r with
  | error e => rfl
  | ok bs => simp [behind, Except.map]

/-- What is found behind all values is what is found behind none. -/
theorem atomize_eq_of_behind {item : Item} {r : Except EvalError (List Atomic)}
    (h : ∀ found, atomizeInto forest found item = behind found r) : item.atomize forest = r := by
  rw [atomize, h]
  cases r with
  | error e => rfl
  | ok as => simp [behind, Except.map]

mutual

/-- What was found before stays in front of the values of an item. -/
theorem atomizeInto_eq (found : Array Atomic) (item : Item) :
    atomizeInto forest found item = behind found (item.atomize forest) := by
  cases item with
  | sequence items =>
    have hall (found : Array Atomic) :
        atomizeInto forest found (.sequence items) = behind found (atomizeEach forest items) := by
      rw [atomizeInto]
      exact atomizeAll_eq found items
    rw [atomize_eq_of_behind hall]
    exact hall found
  | array members =>
    have hall (found : Array Atomic) :
        atomizeInto forest found (.array members) = behind found (atomizeEach forest members) := by
      rw [atomizeInto]
      exact atomizeAll_eq found members
    rw [atomize_eq_of_behind hall]
    exact hall found
  | _ => simp [atomize, atomizeInto, behind, Except.map]

/-- What was found before stays in front of the values of some items. -/
theorem atomizeAll_eq (found : Array Atomic) (items : List Item) :
    atomizeAll forest found items = behind found (atomizeEach forest items) := by
  cases items with
  | nil => simp [atomizeAll, atomizeEach_nil, behind, Except.map]
  | cons item items =>
    rw [atomizeAll, atomizeInto_eq found item, atomizeEach_cons]
    cases item.atomize forest with
    | error e => rfl
    | ok as => exact (atomizeAll_eq (found ++ as.toArray) items).trans (behind_cons found as _)

end

private theorem atomize_sequence (items : List Item) :
    (sequence items).atomize forest = atomizeEach forest items := by
  refine atomize_eq_of_behind fun found => ?_
  rw [atomizeInto]
  exact atomizeAll_eq found items

/-! ### Values that are put together -/

private theorem atomizeEach_singleton (item : Item) : atomizeEach forest [item] =
    item.atomize forest := by
  rw [atomizeEach_cons, atomizeEach_nil]
  cases item.atomize forest with
  | error e => rfl
  | ok as => exact congrArg Except.ok (List.append_nil as)

private theorem atomize_ofItems (items : List Item) : (ofItems items).atomize forest =
    atomizeEach forest items := by
  unfold ofItems
  split
  · exact (atomizeEach_singleton _).symm
  · exact atomize_sequence _

private theorem atomizeEach_spliced (value : Item) :
    atomizeEach forest value.spliced = value.atomize forest := by
  cases value with
  | sequence items => exact (atomize_sequence items).symm
  | _ => exact atomizeEach_singleton _

/-- Splicing does not change the atomic values. -/
theorem atomize_ofList {values : List Item} (h : ∀ v ∈ values, v.error? = none) :
    (ofList values).atomize forest = atomizeEach forest values := by
  rw [ofList, List.findSome?_eq_none_iff.mpr h]
  change (ofItems (values.flatMap spliced)).atomize forest = _
  rw [atomize_ofItems]
  clear h
  induction values with
  | nil => rfl
  | cons value values ih =>
    rw [List.flatMap_cons, atomizeEach_append, atomizeEach_spliced, ih, atomizeEach_cons]

/-- What has atomic values is no error. -/
theorem error?_of_atomize {item : Item} {as : List Atomic} (h : item.atomize forest = .ok as) :
    item.error? = none := by
  cases item with
  | error e => simp [atomize, atomizeInto, Except.map] at h
  | _ => rfl

/-- What has one atomic value at most, and has one, has that one. -/
theorem atomize_of_atomizeOptional {item : Item} {a : Atomic}
    (h : item.atomizeOptional forest = .ok (some a)) : item.atomize forest = .ok [a] := by
  rw [atomizeOptional] at h
  split at h
  · contradiction
  · exact nomatch Except.ok.inj h
  · next hatomize => rw [hatomize, Option.some.inj (Except.ok.inj h)]
  · contradiction

/-- A sequence of values with one atomic value each has these atomic values. -/
theorem atomize_ofList_of_single {values : List Item} {as : List Atomic}
    (h : List.Forall₂ (fun v a => v.atomizeOptional forest = .ok (some a)) values as) :
    (ofList values).atomize forest = .ok as := by
  have herror : ∀ v ∈ values, v.error? = none := by
    induction h with
    | nil => exact nofun
    | cons hv _ ih =>
      exact List.forall_mem_cons.mpr ⟨error?_of_atomize (atomize_of_atomizeOptional hv), ih⟩
  rw [atomize_ofList herror]
  clear herror
  induction h with
  | nil => rfl
  | cons hv _ ih =>
    rw [atomizeEach_cons, atomize_of_atomizeOptional hv, ih]
    rfl

end TreeQuery.Item
