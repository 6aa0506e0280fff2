import Mathlib.Data.List.Perm.Subperm
import TreeQuery.Item.Equality
import TreeQuery.Proofs.Item.Table

/-!
# Equality of maps

Two maps are compared by their sizes and by looking up the keys of the first one in the second. Since the
keys of a map are different, this leaves no key of the second one out: the maps are the same if they hold
the same keys with the same values. The order of the entries has no part in it, nor which map comes first
as long as this is so for the values.
-/

namespace TreeQuery.Item

variable {t u t' u' entries : Table Item}

/-- Entries are found again in a table if each key has an equal value there. -/
theorem sameEntries_iff :
    sameEntries entries t = true ↔
      ∀ entry ∈ entries, ∃ y, Table.get? entry.1 t = some y ∧ entry.2.same y = true := by
  induction entries with
  | nil => simp [sameEntries]
  | cons entry entries ih =>
    rw [sameEntries, Bool.and_eq_true, ih, List.forall_mem_cons]
    refine and_congr_left' ?_
    cases Table.get? entry.1 t <;> simp

/-- Maps are the same if they hold the same keys, with the same values. -/
theorem same_map_iff (ht : (Table.keys t).Nodup) (hu : (Table.keys u).Nodup) :
    (map t).same (.map u) = true ↔
      (∀ key, key ∈ Table.keys t ↔ key ∈ Table.keys u) ∧
        ∀ key x y, (key, x) ∈ t → (key, y) ∈ u → x.same y = true := by
  rw [same, Bool.and_eq_true, beq_iff_eq, sameEntries_iff]
  constructor
  · rintro ⟨hlength, hentries⟩
    have hsubset : Table.keys t ⊆ Table.keys u := by
      intro key hkey
      obtain ⟨x, hx⟩ := Table.exists_mem_of_mem_keys hkey
      obtain ⟨y, hy, -⟩ := hentries _ hx
      exact List.mem_map_of_mem (Table.mem_of_get? hy)
    -- Different keys that are all among as many other ones are all of them.
    have hperm : (Table.keys t).Perm (Table.keys u) := by
      refine (List.subperm_of_subset ht hsubset).perm_of_length_le (Nat.le_of_eq ?_)
      rw [Table.keys, Table.keys, List.length_map, List.length_map, hlength]
    refine ⟨fun key => hperm.mem_iff, fun key x y hx hy => ?_⟩
    obtain ⟨z, hz, hsame⟩ := hentries _ hx
    obtain rfl := Option.some.inj ((Table.get?_of_mem hu hy).symm.trans hz)
    exact hsame
  · rintro ⟨hkeys, hvalues⟩
    have hlength := ((List.perm_ext_iff_of_nodup ht hu).mpr hkeys).length_eq
    rw [Table.keys, Table.keys, List.length_map, List.length_map] at hlength
    refine ⟨hlength, fun entry hentry => ?_⟩
    obtain ⟨y, hy⟩ := Table.exists_mem_of_mem_keys ((hkeys entry.1).mp (List.mem_map_of_mem hentry))
    exact ⟨y, Table.get?_of_mem hu hy, hvalues _ _ _ hentry hy⟩

/-- The order of the entries has no part in it. -/
theorem same_map_of_perm (ht : (Table.keys t).Nodup) (hu : (Table.keys u).Nodup) (htt' : t'.Perm t)
    (huu' : u'.Perm u) : (map t').same (.map u') = (map t).same (.map u) := by
  have hkeys := htt'.map Prod.fst
  have hkeys' := huu'.map Prod.fst
  rw [Bool.eq_iff_iff, same_map_iff ht hu,
    same_map_iff (hkeys.nodup_iff.mpr ht) (hkeys'.nodup_iff.mpr hu)]
  simp only [Table.keys, hkeys.mem_iff, hkeys'.mem_iff, htt'.mem_iff, huu'.mem_iff]

/-- Maps can be compared either way if their values can. -/
theorem same_map_comm (ht : (Table.keys t).Nodup) (hu : (Table.keys u).Nodup)
    (h : ∀ x ∈ Table.values t, ∀ y ∈ Table.values u, x.same y = y.same x) :
    (map t).same (.map u) = (map u).same (.map t) := by
  rw [Bool.eq_iff_iff, same_map_iff ht hu, same_map_iff hu ht]
  refine and_congr (forall_congr' fun key => Iff.comm) ?_
  have hvalues {key : MapKey} {x y : Item} (hx : (key, x) ∈ t) (hy : (key, y) ∈ u) :
      x.same y = y.same x := h x (List.mem_map_of_mem hx) y (List.mem_map_of_mem hy)
  constructor
  · intro hsame key y x hy hx
    rw [← hvalues hx hy]
    exact hsame key x y hx hy
  · intro hsame key x y hx hy
    rw [hvalues hx hy]
    exact hsame key y x hy hx

end TreeQuery.Item
