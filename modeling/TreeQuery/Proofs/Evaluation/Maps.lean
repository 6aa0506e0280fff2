import TreeQuery.Proofs.Evaluation.Lookups
import TreeQuery.Proofs.Item.Equality

/-!
# Maps as finite maps in insertion order

All maps are made of entries and by `map:put`. They are finite maps: a key has one value, and to put a
value there changes neither the values nor the places of the other keys, nor the map that it is put into.
Equality of maps is equality as finite maps.
-/

namespace TreeQuery

namespace Eval

/-- `map:put(base, key, value)` -/
def putInto (base key value : Expr) : Expr :=
  .call ⟨some "map", "put"⟩ [.value base, .value key, .value value]

variable {c : Context} {base key value : Expr} {entries : Table Item} {a : Atomic} {v : Item}

private theorem valueIn_putInto (hdepth : c.depth < c.limits.depth)
    (hbase : valueIn .library c base = .ok (.map entries)) (hkey : HasKey c key a)
    (hvalue : valueIn .library c value = .ok v) :
    valueIn .library c (putInto base key value) = .ok (.map (Table.put (.ofAtomic a) v entries)) := by
  obtain ⟨k, hk, hatomize⟩ := hkey
  obtain ⟨rule, hf, hrule⟩ : ∃ rule,
      Registry.library.resolve? ⟨some "map", "put"⟩ = some (.ternary "map:put" rule) ∧
        rule c.forest (.map entries) k v = .ok (.map (Table.put (.ofAtomic a) v entries)) := by
    refine ⟨_, (Registry.resolve?_library_qualified (by decide) _).trans rfl, ?_⟩
    change (do return Item.map (Table.put (← k.keyArgument c.forest) v entries)) = _
    rw [keyArgument_of_atomizeOptional hatomize]
    rfl
  have hes : List.Forall₂ (fun e v => valueIn .library c e = .ok v) [base, key, value]
      [.map entries, k, v] := .cons hbase (.cons hk (.cons hvalue .nil))
  have hcall : valueIn .library c (putInto base key value) =
      rule c.forest (.map entries) k v >>= Item.toResult := (valueIn_call rfl hf rfl hdepth hes rfl :)
  rw [hcall, hrule]
  rfl

/-- A map is as it was after a value has been put into it. -/
theorem valueIn_after_putInto (hbase : valueIn .library c base = .ok (.map entries)) :
    valueIn .library ((evaluate .library (putInto base key value)).run.run c).2 base =
      .ok (.map entries) := by
  rw [(context_unchanged .library fun _ hf => Or.inl hf).1]
  exact hbase

end Eval

namespace Table

open Eval

/-- Entries make a map as they are, unless a key repeats; the first one that does is named. A map that is
made of entries, and by any number of puts, has different keys. To put a value under a key changes what is
found under this key only; a key that is there keeps its place, and a new one comes last; the map that it
is put into stays as it was. Two such maps are the same if they have the same keys with the same values,
so the order of the entries does not matter, nor does it matter which map comes first if the values can
be compared either way. -/
theorem finite_map_in_insertion_order :
    (∀ entries : List (MapKey × Item),
      (∀ t, ofEntries entries = .ok t ↔ (keys entries).Nodup ∧ t = entries) ∧
      (∀ e, ofEntries entries = .error e ↔
        ∃ before key value after, entries = before ++ (key, value) :: after ∧ (keys before).Nodup ∧
          key ∈ keys before ∧ e = .duplicateKey key.render)) ∧
    (∀ t : Table Item, t.Made →
      (keys t).Nodup ∧
      (∀ key value,
        get? key (put key value t) = some value ∧
        (∀ other, other ≠ key → get? other (put key value t) = get? other t) ∧
        (key ∈ keys t → ∃ before old after, t = before ++ (key, old) :: after ∧
          put key value t = before ++ (key, value) :: after) ∧
        (key ∉ keys t → put key value t = t ++ [(key, value)])) ∧
      (∀ c base key value a v, c.depth < c.limits.depth →
        valueIn .library c base = .ok (.map t) → HasKey c key a → valueIn .library c value = .ok v →
        ∃ d, (evaluate .library (putInto base key value)).run.run c =
            (.ok (.map (put (.ofAtomic a) v t)), d) ∧
          valueIn .library d base = .ok (.map t)) ∧
      (∀ u : Table Item, u.Made →
        ((Item.map t).same (.map u) = true ↔
          (∀ key, key ∈ keys t ↔ key ∈ keys u) ∧
            ∀ key x y, (key, x) ∈ t → (key, y) ∈ u → x.same y = true) ∧
        (∀ t' u', t'.Perm t → u'.Perm u →
          (Item.map t').same (.map u') = (Item.map t).same (.map u)) ∧
        ((∀ x ∈ values t, ∀ y ∈ values u, x.same y = y.same x) →
          (Item.map t).same (.map u) = (Item.map u).same (.map t)))) := by
  refine ⟨fun entries => ⟨fun t => ofEntries_eq_ok_iff, fun e => ofEntries_eq_error_iff⟩,
    fun t ht => ⟨ht.nodup, fun key value => ⟨?_, fun other hother => ?_, put_of_mem value, put_of_not_mem⟩,
      ?_, fun u hu => ⟨Item.same_map_iff ht.nodup hu.nodup, fun t' u' => ?_,
        Item.same_map_comm ht.nodup hu.nodup⟩⟩⟩
  · rw [get?_put, if_pos rfl]
  · rw [get?_put, if_neg hother.symm]
  · intro c base key value a v hdepth hbase hkey hvalue
    refine ⟨_, Prod.ext ?_ rfl, valueIn_after_putInto hbase⟩
    exact valueIn_putInto hdepth hbase hkey hvalue
  · exact Item.same_map_of_perm ht.nodup hu.nodup

/-- `map:put(map { 1: 'x', 'k': 'y' }, 1.0, ())` keeps the place of the key, and the map is the same as the
one with its entries in the other order. Both together have a key twice. -/
theorem finite_map_in_insertion_order_pair :
    let t : Table Item := [(.integer 1, .string "x"), (.string "k", .string "y")]
    let u : Table Item := [(.string "k", .string "y"), (.integer 1, .string "x")]
    let base : Expr := .mapOf [⟨.literal (.integer 1), .literal (.string "x")⟩,
      ⟨.literal (.string "k"), .literal (.string "y")⟩]
    let key : Expr := .literal (.decimal ⟨false, 10, 1, by decide, by decide⟩)
    (t.Made ∧ u.Made ∧ t.Perm u ∧ (∀ x ∈ values t, ∀ y ∈ values u, x.same y = y.same x)) ∧
    (Item.map t).same (.map u) = true ∧ (Item.map t).same (.map u) = (Item.map u).same (.map t) ∧
    (∃ d, (evaluate .library (putInto base key (.sequence []))).run.run {} =
        (.ok (.map [(.integer 1, .empty), (.string "k", .string "y")]), d) ∧
      valueIn .library d base = .ok (.map t)) ∧
    ofEntries (t ++ u) = .error (.duplicateKey "\"k\"") := by
  intro t u base key
  have ht : t.Made := .ofEntries (show ofEntries t = .ok t from rfl)
  have hu : u.Made := .ofEntries (show ofEntries u = .ok u from rfl)
  have hperm : t.Perm u := .swap _ _ _
  have hvalues : ∀ x ∈ values t, ∀ y ∈ values u, x.same y = y.same x := by
    simp [t, u, values, Item.same]
  obtain ⟨hentries, hmade⟩ := finite_map_in_insertion_order
  obtain ⟨-, -, hput, hsame⟩ := hmade t ht
  obtain ⟨-, hreordered, hmirrored⟩ := hsame u hu
  have hself : (Item.map u).same (.map u) = true := by simp [u, Item.same, Item.sameEntries, get?]
  refine ⟨⟨ht, hu, hperm, hvalues⟩, ?_, hmirrored hvalues, ?_, ((hentries _).2 _).mpr ?_⟩
  · rw [← hreordered u u hperm.symm (.refl u)]
    exact hself
  · exact hput {} base key (.sequence []) (.decimal ⟨false, 10, 1, by decide, by decide⟩) .empty
      (by decide) rfl ⟨_, rfl, rfl⟩ rfl
  · exact ⟨t, .string "k", .string "y", [(.integer 1, .string "x")], rfl, by decide, by decide, rfl⟩

end Table

end TreeQuery
