import TreeQuery.Proofs.Item.Closed

/-!
# Well-formed items

A sequence is flat and has another length than one, keys of a map are different, and neither an
error nor `nil` is anywhere inside. Whatever is put together from well-formed items by the rules for
sequences, tables, operators and casts is well formed again.
-/

namespace TreeQuery

mutual

/-- A value that is well formed at every depth. -/
inductive Item.WellFormed : Item → Prop
  | integer (value : Int64) : Item.WellFormed (.integer value)
  | decimal (value : Decimal) : Item.WellFormed (.decimal value)
  | double (value : Float) : Item.WellFormed (.double value)
  | string (value : String) : Item.WellFormed (.string value)
  | boolean (value : Bool) : Item.WellFormed (.boolean value)
  /-- A sequence is flat, and one item is no sequence. -/
  | sequence {items : List Item} (length : items.length ≠ 1)
      (flat : ∀ i ∈ items, i.isSequence = false) (inner : ∀ i ∈ items, Item.WellFormed i) :
      Item.WellFormed (.sequence items)
  | array {members : List Item} (inner : ∀ m ∈ members, Item.WellFormed m) :
      Item.WellFormed (.array members)
  /-- The keys of a map are pairwise distinct. -/
  | map {entries : Table Item} (keys : (Table.keys entries).Nodup)
      (inner : ∀ v ∈ Table.values entries, Item.WellFormed v) : Item.WellFormed (.map entries)
  | node (node : Node) : Item.WellFormed (.node node)
  | function {function : FunctionItem} (inner : FunctionItem.WellFormed function) :
      Item.WellFormed (.function function)

/-- A function that holds on to well-formed values only. -/
inductive FunctionItem.WellFormed : FunctionItem → Prop
  | named (name : QName) (arity : Nat) : FunctionItem.WellFormed (.named name arity)
  | inline (params : List Param) (result : Option SequenceType) (body : Expr) :
      FunctionItem.WellFormed (.inline params result body)
  | waiting {base : Item} {args : List (Option Item)} (function : Item.WellFormed base)
      (inner : ∀ a, some a ∈ args → Item.WellFormed a) :
      FunctionItem.WellFormed (.waiting base args)

end

/-- An item that can stand in a sequence. -/
def Item.Single (i : Item) : Prop := i.WellFormed ∧ i.isSequence = false

namespace Item

/-- An error is no well-formed value. -/
theorem not_wellFormed_error (e : EvalError) : ¬ (Item.error e).WellFormed := nofun

/-- Neither is `nil`. -/
theorem not_wellFormed_nil : ¬ Item.nil.WellFormed := nofun

/-- A well-formed value is no error. -/
theorem WellFormed.error?_eq_none {v : Item} (hv : v.WellFormed) : v.error? = none := by
  cases hv <;> rfl

/-- A well-formed value is its own result. -/
theorem WellFormed.toResult {v : Item} (hv : v.WellFormed) : v.toResult = .ok v := by
  cases hv <;> rfl

/-- An atomic value is a single item. -/
theorem single_ofAtomic (a : Atomic) : (ofAtomic a).Single := by
  cases a <;> exact ⟨by constructor, rfl⟩

/-- The items of a well-formed value can stand in a sequence. -/
theorem WellFormed.single_of_mem_items {v i : Item} (hv : v.WellFormed) (hi : i ∈ v.items) :
    i.Single := by
  cases hv with
  | sequence _ flat inner => exact ⟨inner i hi, flat i hi⟩
  | _ =>
    obtain rfl := List.mem_singleton.mp hi
    exact ⟨by constructor <;> assumption, rfl⟩

private theorem WellFormed.single_of_mem_spliced {v i : Item} (hv : v.WellFormed) (hi : i ∈ v.spliced) :
    i.Single := by
  refine hv.single_of_mem_items ?_
  cases hv <;> exact hi

private theorem WellFormed.items {v : Item} (hv : v.WellFormed) : AllHave WellFormed v.items :=
  fun _ hi => (hv.single_of_mem_items hi).1

/-! ### Sequences -/

private theorem wellFormed_ofItems {items : List Item} (h : ∀ i ∈ items, i.Single) :
    (ofItems items).WellFormed := by
  unfold ofItems
  split
  · exact (h _ (List.mem_singleton_self _)).1
  · next hlength =>
    refine .sequence (fun hone => ?_) (fun i hi => (h i hi).2) (fun i hi => (h i hi).1)
    obtain ⟨i, rfl⟩ := List.length_eq_one_iff.mp hone
    exact hlength i rfl

/-- Splicing well-formed values into a sequence gives a flat one, and no error. -/
theorem wellFormed_ofList {values : List Item} (h : AllHave WellFormed values) :
    (ofList values).WellFormed := by
  have herror : values.findSome? error? = none :=
    List.findSome?_eq_none_iff.mpr fun v hv => (h v hv).error?_eq_none
  simp only [ofList, herror]
  apply wellFormed_ofItems
  intro i hi
  obtain ⟨v, hv, hi⟩ := List.mem_flatMap.mp hi
  exact (h v hv).single_of_mem_spliced hi

/-- Nothing that evaluation does to well-formed values gives one that is not. -/
theorem closed_wellFormed : Closed WellFormed where
  ofAtomic a := (single_ofAtomic a).1
  node := .node
  named name arity := .function (.named name arity)
  inline params result body := .function (.inline params result body)
  waiting _ hbase hargs := .function (.waiting hbase hargs)
  ofWaiting h := by
    cases h with
    | function h =>
      cases h with
      | waiting hbase hargs => exact ⟨hbase, hargs⟩
  array := .array
  ofArray h := by
    cases h with
    | array inner => exact inner
  put key h hvalue := by
    cases h with
    | map keys inner =>
      refine .map (Table.nodup_put keys) fun v hv => ?_
      rcases Table.mem_values_put hv with rfl | hv
      · exact hvalue
      · exact inner v hv
  ofEntries h := by
    refine (Table.gives_ofEntries _).map fun t ht => .map ht.1 fun v hv => ?_
    rw [ht.2] at hv
    exact h v hv
  ofMap h := by
    cases h with
    | map keys inner => exact inner
  items h := h.items
  ofList := wellFormed_ofList

end Item

end TreeQuery
