import TreeQuery.Proofs.Item.Atomize

/-!
# Reading maps and arrays

A lookup with one key gives the value of the key, or the member at the position, as it is: a well-formed
value is not changed by being put into a sequence alone. A lookup with several keys puts together what the
lookups with each of them give, and fails as the first one that fails.
-/

namespace TreeQuery.Item

variable {entries : Table Item} {members : List Item} {value : Item}

private theorem WellFormed.ofList_singleton (h : value.WellFormed) : ofList [value] = value := by
  have hlist : ofList [value] = ofItems value.spliced := by
    rw [ofList, List.findSome?_cons, h.error?_eq_none]
    exact congrArg ofItems (List.append_nil _)
  rw [hlist]
  cases h with
  | sequence length _ _ => exact ofItems_of_length_ne_one length
  | _ => rfl

/-! ### The value of a key -/

/-- The value of a key is the one in its entry. -/
theorem valueOf_of_mem {key : MapKey} (hkeys : (Table.keys entries).Nodup) (h : (key, value) ∈ entries) :
    valueOf entries key = value := by
  rw [valueOf, Table.get?_of_mem hkeys h]
  rfl

/-- A key that is not there has the empty value. -/
theorem valueOf_of_not_mem {key : MapKey} (h : key ∉ Table.keys entries) : valueOf entries key = empty := by
  rw [← Table.holds_iff_mem_keys, Table.holds, Bool.not_eq_true, Option.isSome_eq_false_iff,
    Option.isNone_iff_eq_none] at h
  rw [valueOf, h]
  rfl

/-! ### The member at a position -/

/-- An array has a member at each of its positions. -/
theorem memberAt_of_le {i : Int64} (hleast : 1 ≤ i.toInt) (hmost : i.toInt ≤ members.length) :
    ∃ member, members[i.toInt.toNat - 1]? = some member ∧ memberAt members i = .ok member := by
  have hindex : i.toInt.toNat - 1 < members.length := by omega
  have hmember := List.getElem?_eq_getElem hindex
  refine ⟨_, hmember, ?_⟩
  rw [memberAt, if_neg (by omega), hmember]

/-- At every other position there is an error that names it. -/
theorem memberAt_of_not_le {i : Int64} (h : ¬ (1 ≤ i.toInt ∧ i.toInt ≤ members.length)) :
    memberAt members i = .error (.indexOutOfRange i members.length) := by
  rw [memberAt]
  split
  · rfl
  · rw [List.getElem?_eq_none (by omega)]

/-! ### Lookups -/

private theorem lookup_map (key : LookupKey) (keys : List Atomic) :
    lookup key (some keys) (.map entries) = .ok (ofList (valuesOf entries keys)) := by
  change Except.ok (ofList [valuesOf entries keys].flatten) = _
  rw [List.flatten_singleton]

private theorem lookup_array (key : LookupKey) (keys : List Atomic) :
    lookup key (some keys) (.array members) = (membersAt members keys).map ofList := by
  change ((do return [← membersAt members keys]).map fun found : List (List Item) =>
    ofList found.flatten) = _
  cases membersAt members keys with
  | error e => rfl
  | ok found =>
    change Except.ok (ofList [found].flatten) = _
    rw [List.flatten_singleton]
    rfl

/-- What a map does not hold adds nothing to a sequence. -/
theorem ofList_valuesOf (keys : List Atomic) :
    ofList (valuesOf entries keys) = ofList (keys.map fun key => valueOf entries (.ofAtomic key)) := by
  have hsame : (valuesOf entries keys).findSome? error? =
        (keys.map fun key => valueOf entries (.ofAtomic key)).findSome? error? ∧
      (valuesOf entries keys).flatMap spliced =
        (keys.map fun key => valueOf entries (.ofAtomic key)).flatMap spliced := by
    induction keys with
    | nil => exact ⟨rfl, rfl⟩
    | cons key keys ih =>
      rw [valuesOf, List.filterMap_cons, List.map_cons, List.findSome?_cons, List.flatMap_cons, valueOf]
      cases Table.get? (.ofAtomic key) entries with
      | none => exact ih
      | some value =>
        change ((value :: valuesOf entries keys).findSome? error? = _ ∧
          (value :: valuesOf entries keys).flatMap spliced = _)
        rw [List.findSome?_cons, List.flatMap_cons, ih.1, ih.2]
        exact ⟨rfl, rfl⟩
  rw [ofList, ofList, hsame.1, hsame.2]

/-- With one key, a lookup gives the value of the key. -/
theorem lookup_map_single (h : (map entries).WellFormed) (key : LookupKey) (a : Atomic) :
    lookup key (some [a]) (.map entries) = .ok (valueOf entries (.ofAtomic a)) := by
  rw [lookup_map, ofList_valuesOf]
  exact congrArg Except.ok (closed_wellFormed.valueOf h _).ofList_singleton

/-- With one position, a lookup gives the member at it. -/
theorem lookup_array_single (h : (array members).WellFormed) (key : LookupKey) (a : Atomic) :
    lookup key (some [a]) (.array members) = a.arrayIndex >>= memberAt members := by
  rw [lookup_array, membersAt, List.mapM_cons, List.mapM_nil]
  cases a.arrayIndex with
  | error e => rfl
  | ok i =>
    change ((do return [← memberAt members i]).map ofList) = memberAt members i
    cases hmember : memberAt members i with
    | error e => rfl
    | ok member =>
      exact congrArg Except.ok (gives_memberAt (closed_wellFormed.ofArray h) i _ hmember).ofList_singleton

/-- A map or an array, whose keys can be looked up. -/
inductive Container : Item → Prop
  | map (entries : Table Item) : Container (.map entries)
  | array (members : List Item) : Container (.array members)

/-- How a key is written has a part only in the error of what is no map and no array. -/
theorem Container.lookup_congr (h : value.Container) (key key' : LookupKey) (keys : Option (List Atomic)) :
    lookup key keys value = lookup key' keys value := by
  cases h <;> cases keys <;> rfl

/-- A lookup with several keys puts together what the lookups with each of them give. -/
theorem lookup_keys (h : value.WellFormed) (hcontainer : value.Container) (key : LookupKey)
    (keys : List Atomic) :
    lookup key (some keys) value = (keys.mapM fun a => lookup key (some [a]) value).map ofList := by
  cases hcontainer with
  | map entries =>
    simp only [lookup_map_single h]
    rw [lookup_map, ofList_valuesOf]
    exact congrArg (Except.map ofList) (List.mapM_pure (m := Except EvalError)).symm
  | array members =>
    simp only [lookup_array_single h]
    rw [lookup_array, membersAt]

end TreeQuery.Item
