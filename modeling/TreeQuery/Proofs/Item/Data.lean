import TreeQuery.Proofs.Evaluation.Errors
import TreeQuery.Proofs.Item.Equality
import TreeQuery.Proofs.Item.WellFormed

/-!
# Plain data

Integers, strings and booleans, and sequences, arrays and maps of plain data. There is an expression
that is put together from literals and constructors as the data is, and evaluating it makes the data
again: signs, splicing and the normal form of keys change nothing in it.
-/

namespace TreeQuery

/-- A key that can be written down: a text, or an integer that has an opposite. -/
inductive MapKey.Data : MapKey → Prop
  | string (value : String) : MapKey.Data (.string value)
  | integer {value : Int64} (opposite : Int64.minValue < value) : MapKey.Data (.integer value)

/-- Plain data with no more than so many sequences, arrays and maps around any value in it. -/
inductive Item.Data : Nat → Item → Prop
  | integer {depth : Nat} {value : Int64} (opposite : Int64.minValue < value) :
      Item.Data depth (.integer value)
  | string {depth : Nat} (value : String) : Item.Data depth (.string value)
  | boolean {depth : Nat} (value : Bool) : Item.Data depth (.boolean value)
  /-- A sequence is flat, and one item is no sequence. -/
  | sequence {depth : Nat} {items : List Item} (length : items.length ≠ 1)
      (flat : ∀ i ∈ items, i.isSequence = false) (inner : ∀ i ∈ items, Item.Data depth i) :
      Item.Data (depth + 1) (.sequence items)
  | array {depth : Nat} {members : List Item} (inner : ∀ m ∈ members, Item.Data depth m) :
      Item.Data (depth + 1) (.array members)
  /-- The keys of a map are pairwise distinct. -/
  | map {depth : Nat} {entries : Table Item} (keys : (Table.keys entries).Nodup)
      (key : ∀ entry ∈ entries, entry.1.Data) (inner : ∀ entry ∈ entries, Item.Data depth entry.2) :
      Item.Data (depth + 1) (.map entries)

/-! ### The expression of plain data -/

/-- The expression of an integer: a sign is not part of a literal. -/
def Integer.source (i : Int64) : Expr :=
  if 0 ≤ i.toInt then .literal (.integer i) else .signed .minus (.literal (.integer (-i)))

/-- The expression of a key. -/
def MapKey.source : MapKey → Expr
  | .string s => .literal (.string s)
  | .integer i => Integer.source i
  | _ => .empty

namespace Item

mutual

/-- The expression of plain data. Other values have none. -/
def source : Item → Expr
  | .integer i => Integer.source i
  | .string s => .literal (.string s)
  | .boolean b => .call (.simple (renderBoolean b)) []
  | .sequence items => .sequence (sources items)
  | .array members => .squareArray (sources members)
  | .map entries => .mapOf (entrySources entries)
  | _ => .empty

/-- The expressions of plain data. -/
def sources : List Item → List Expr
  | [] => []
  | item :: items => source item :: sources items

/-- The expressions of map entries. -/
def entrySources : List (MapKey × Item) → List Entry
  | [] => []
  | (key, value) :: entries => ⟨key.source, source value⟩ :: entrySources entries

end

/-- The expressions of items are those of each of them. -/
theorem sources_eq_map (items : List Item) : sources items = items.map source := by
  induction items with
  | nil => rfl
  | cons item items ih => rw [sources, ih, List.map_cons]

/-- The expressions of entries are those of their keys and values. -/
theorem entrySources_eq_map (entries : List (MapKey × Item)) :
    entrySources entries = entries.map fun entry => ⟨entry.1.source, entry.2.source⟩ := by
  induction entries with
  | nil => rfl
  | cons entry entries ih => rw [entrySources, ih, List.map_cons]

variable {depth : Nat} {item : Item}

/-- Plain data is well formed. -/
theorem Data.wellFormed (h : item.Data depth) : item.WellFormed := by
  induction h with
  | integer _ => exact .integer _
  | string value => exact .string value
  | boolean value => exact .boolean value
  | sequence length flat _ ih => exact .sequence length flat ih
  | array _ ih => exact .array ih
  | map keys _ _ ih =>
    refine .map keys fun v hv => ?_
    obtain ⟨entry, hentry, rfl⟩ := List.mem_map.mp hv
    exact ih entry hentry

end Item

/-! ### Evaluation -/

/-- An integer that is larger than the least one has an opposite. -/
theorem Integer.toInt_neg {i : Int64} (h : Int64.minValue < i) : (-i).toInt = -i.toInt := by
  have hlower := Int64.lt_iff_toInt_lt.mp h
  have hupper := Int64.toInt_lt i
  have hleast : Int64.minValue.toInt = -2 ^ 63 := rfl
  rw [Int64.toInt_neg, Int.bmod_eq_of_le (by omega) (by omega)]

namespace Eval

variable {registry : Registry} {deeper : Deeper} {c : Context}

private theorem run_source_integer {i : Int64} (h : Int64.minValue < i) :
    (expr registry deeper (Integer.source i)).run.run c = (.ok (.integer i), c) := by
  rw [Integer.source]
  split
  · rw [expr]
    rfl
  · have hfit : Integer.fit? (-(-i).toInt) = some i := by
      rw [Integer.toInt_neg h, Int.neg_neg, Integer.fit?_toInt]
    have hsign : (Atomic.integer (-i)).withSign .minus = .ok (.integer i) := by
      have hoperand : (Atomic.integer (-i)).isOperand = true := rfl
      have hnumeric : (Atomic.integer (-i)).toNumeric Sign.minus.symbol (.integer (-i)) =
          .ok (.integer (-i)) := rfl
      rw [Atomic.withSign, if_pos hoperand, hnumeric]
      simp only [bind, Except.bind, hfit]
    rw [expr, run_bind, expr]
    change ((Atomic.integer (-i)).withSign .minus |>.map Item.ofAtomic, c) = _
    rw [hsign]
    rfl

private theorem run_source_boolean (hdepth : c.depth < c.limits.depth) (b : Bool) :
    (expr .library deeper (Item.boolean b).source).run.run c = (.ok (.boolean b), c) := by
  have hresolve : Registry.library.resolve? (.simple (renderBoolean b)) =
      some (.constant (renderBoolean b) fun _ => .ok (.boolean b)) := by
    rw [Registry.resolve?_library_simple]
    cases b <;> rfl
  have hargs : Evaluate .library deeper c [] [] := .nil
  exact (run_expr_call rfl hresolve rfl hdepth hargs rfl :)

private theorem run_mapKey {key : MapKey} (h : key.Data) :
    (expr registry deeper key.source >>= mapKey).run.run c = (.ok key, c) := by
  rw [run_bind]
  cases h with
  | string value =>
    rw [MapKey.source, expr]
    rfl
  | integer opposite =>
    rw [MapKey.source, run_source_integer opposite]
    rfl

private theorem run_exprs_sources {items : List Item}
    (h : ∀ i ∈ items, (expr registry deeper i.source).run.run c = (.ok i, c)) :
    (exprs registry deeper (Item.sources items)).run.run c = (.ok items, c) := by
  have hvalues : Evaluate registry deeper c (items.map Item.source) items :=
    List.forall₂_map_left_iff.mpr (List.forall₂_same.mpr h)
  rw [Item.sources_eq_map]
  exact hvalues.run_exprs

private theorem run_entries_sources {table : Table Item} (hkeys : ∀ entry ∈ table, entry.1.Data)
    (h : ∀ entry ∈ table, (expr registry deeper entry.2.source).run.run c = (.ok entry.2, c)) :
    (entries registry deeper (Item.entrySources table)).run.run c = (.ok table, c) := by
  induction table with
  | nil =>
    rw [Item.entrySources, entries]
    rfl
  | cons entry table ih =>
    obtain ⟨key, value⟩ := entry
    rw [List.forall_mem_cons] at hkeys h
    have hkey : (expr registry deeper key.source >>= mapKey).run.run c = (.ok key, c) :=
      run_mapKey hkeys.1
    rw [Item.entrySources, entries, ← bind_assoc, run_bind, hkey]
    dsimp only
    rw [run_bind, h.1]
    dsimp only
    rw [run_bind, ih hkeys.2 h.2]
    rfl

/-- The expression of plain data has it as its value. -/
theorem run_source {depth : Nat} {item : Item} (h : item.Data depth)
    (hdepth : c.depth < c.limits.depth) :
    (expr .library deeper item.source).run.run c = (.ok item, c) := by
  induction h with
  | integer opposite => exact run_source_integer opposite
  | string value =>
    rw [Item.source, expr]
    rfl
  | boolean value => exact run_source_boolean hdepth value
  | @sequence depth items length flat inner ih =>
    have hlist : Item.ofList items = .sequence items := by
      rw [Item.ofList_eq_ofItems fun i hi => ⟨flat i hi, (inner i hi).wellFormed.error?_eq_none⟩,
        Item.ofItems_of_length_ne_one length]
    rw [Item.source, expr, run_bind, run_exprs_sources ih, ← hlist]
    rfl
  | array _ ih =>
    rw [Item.source, expr, run_bind, run_exprs_sources ih]
    rfl
  | map keys key _ ih =>
    rw [Item.source, expr, run_bind, run_entries_sources key ih]
    dsimp only
    rw [run_reading, Table.ofEntries_of_nodup keys]
    rfl

end Eval

/-! ### Equality -/

namespace Item

private theorem sameAll_self {items : List Item} (h : ∀ i ∈ items, i.same i = true) :
    sameAll items items = true := by
  induction items with
  | nil => rw [sameAll]
  | cons i items ih =>
    rw [List.forall_mem_cons] at h
    rw [sameAll, h.1, ih h.2]
    rfl

/-- Plain data is the same as itself, since there are no doubles in it. -/
theorem Data.same_self {depth : Nat} {item : Item} (h : item.Data depth) : item.same item = true := by
  induction h with
  | integer _ | string _ | boolean _ => simp [same]
  | sequence _ _ _ ih | array _ ih => rw [same, sameAll_self ih]
  | map keys _ _ ih =>
    have hentries := sameEntries_iff.mpr fun entry hentry =>
      ⟨entry.2, Table.get?_of_mem keys hentry, ih entry hentry⟩
    rw [same, hentries, beq_self_eq_true, Bool.and_self]

end Item

end TreeQuery
