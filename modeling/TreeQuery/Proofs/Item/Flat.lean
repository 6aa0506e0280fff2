import TreeQuery.Proofs.Item.Closed

/-!
# Flat values

Among the items of a sequence there are neither sequences nor errors, because putting a sequence
together splices sequences in and lets the first error take the place of everything. That is all that
is asked of a flat value, at every depth: it may be an error or `nil`, and hold them in arrays and maps.
Splicing flat values in two steps is the same as splicing them at once.
-/

namespace TreeQuery.Item

/-- An item that can stand in a sequence. -/
def Plain (i : Item) : Prop := i.isSequence = false ∧ i.error? = none

/-- A value whose sequences hold neither sequences nor errors, at every depth. -/
inductive Flat : Item → Prop
  | integer (value : Int64) : Flat (.integer value)
  | decimal (value : Decimal) : Flat (.decimal value)
  | double (value : Float) : Flat (.double value)
  | string (value : String) : Flat (.string value)
  | boolean (value : Bool) : Flat (.boolean value)
  | node (node : Node) : Flat (.node node)
  | error (error : EvalError) : Flat (.error error)
  | nil : Flat .nil
  | sequence {items : List Item} (plain : ∀ i ∈ items, i.Plain) (inner : ∀ i ∈ items, Flat i) :
    Flat (.sequence items)
  | array {members : List Item} (inner : ∀ m ∈ members, Flat m) : Flat (.array members)
  | map {entries : Table Item} (inner : ∀ v ∈ Table.values entries, Flat v) : Flat (.map entries)
  | named (name : QName) (arity : Nat) : Flat (.function (.named name arity))
  | inline (params : List Param) (result : Option SequenceType) (body : Expr) :
    Flat (.function (.inline params result body))
  | waiting {base : Item} {args : List (Option Item)} (function : Flat base)
    (inner : ∀ a, some a ∈ args → Flat a) : Flat (.function (.waiting base args))

variable {value : Item} {values : List Item} {lists : List (List Item)}

/-- What a flat value puts into a sequence can stand there, unless the value is an error. -/
theorem Flat.spliced (h : value.Flat) (hvalue : value.error? = none) :
    ∀ i ∈ value.spliced, i.Plain ∧ i.Flat := by
  intro i hi
  cases h with
  | sequence plain inner => exact ⟨plain i hi, inner i hi⟩
  | error e => contradiction
  | _ =>
    obtain rfl := List.mem_singleton.mp hi
    exact ⟨⟨rfl, rfl⟩, by constructor <;> assumption⟩

/-- The items of a flat value are flat. -/
theorem Flat.items (h : value.Flat) : AllHave Flat value.items := by
  intro i hi
  cases h with
  | sequence plain inner => exact inner i hi
  | nil => contradiction
  | _ =>
    obtain rfl := List.mem_singleton.mp hi
    constructor <;> assumption

private theorem flat_ofItems {items : List Item} (h : ∀ i ∈ items, i.Plain ∧ i.Flat) :
    (ofItems items).Flat := by
  unfold ofItems
  split
  · exact (h _ (List.mem_singleton_self _)).2
  · exact .sequence (fun i hi => (h i hi).1) fun i hi => (h i hi).2

/-- The first error takes the place of everything. -/
theorem ofList_cases (values : List Item) :
    (∃ e, values.findSome? error? = some e ∧ ofList values = .error e) ∨
      (∀ v ∈ values, v.error? = none) ∧ ofList values = ofItems (values.flatMap spliced) := by
  unfold ofList
  cases herror : values.findSome? error? with
  | some e => exact Or.inl ⟨e, rfl, rfl⟩
  | none => exact Or.inr ⟨List.findSome?_eq_none_iff.mp herror, rfl⟩

private theorem flat_ofList (h : AllHave Flat values) : (ofList values).Flat := by
  rcases ofList_cases values with ⟨e, -, heq⟩ | ⟨hnone, heq⟩
  · rw [heq]
    exact .error e
  · rw [heq]
    apply flat_ofItems
    intro i hi
    obtain ⟨v, hv, hi⟩ := List.mem_flatMap.mp hi
    exact (h v hv).spliced (hnone v hv) i hi

/-- Nothing that evaluation does to flat values gives one that is not. -/
theorem closed_flat : Closed Flat where
  ofAtomic a := by cases a <;> constructor
  node := .node
  named := .named
  inline := .inline
  waiting _ hbase hargs := .waiting hbase hargs
  ofWaiting h := by
    cases h with
    | waiting hbase hargs => exact ⟨hbase, hargs⟩
  array := .array
  ofArray h := by
    cases h with
    | array inner => exact inner
  put key h hvalue := by
    cases h with
    | map inner =>
      refine .map fun v hv => ?_
      rcases Table.mem_values_put hv with rfl | hv
      · exact hvalue
      · exact inner v hv
  ofEntries h := by
    refine (Table.gives_ofEntries _).map fun t ht => .map fun v hv => ?_
    rw [ht.2] at hv
    exact h v hv
  ofMap h := by
    cases h with
    | map inner => exact inner
  items h := h.items
  ofList := flat_ofList

/-! ### Splicing in two steps -/

/-- The items of a value that was made of plain items are these. -/
theorem spliced_ofItems {items : List Item} (h : ∀ i ∈ items, i.Plain) :
    (ofItems items).spliced = items := by
  unfold ofItems
  split
  · next item =>
    have hitem := (h item (List.mem_singleton_self _)).1
    cases item <;> first | rfl | contradiction
  · rfl

private theorem error?_ofItems {items : List Item} (h : ∀ i ∈ items, i.Plain) :
    (ofItems items).error? = none := by
  unfold ofItems
  split
  · exact (h _ (List.mem_singleton_self _)).2
  · rfl

/-- Splicing lists of flat values first each for itself and then together changes nothing. -/
theorem ofList_map_ofList (h : ∀ values ∈ lists, AllHave Flat values) :
    ofList (lists.map ofList) = ofList lists.flatten := by
  have herror : (lists.map ofList).findSome? error? = lists.flatten.findSome? error? := by
    induction lists with
    | nil => rfl
    | cons values lists ih =>
      rw [List.forall_mem_cons] at h
      rw [List.map_cons, List.findSome?_cons, List.flatten_cons, List.findSome?_append, ih h.2]
      rcases ofList_cases values with ⟨e, hfirst, heq⟩ | ⟨hnone, heq⟩
      · rw [heq, hfirst]
        rfl
      · have hplain : ∀ i ∈ values.flatMap spliced, i.Plain := by
          intro i hi
          obtain ⟨v, hv, hi⟩ := List.mem_flatMap.mp hi
          exact ((h.1 v hv).spliced (hnone v hv) i hi).1
        rw [heq, error?_ofItems hplain, List.findSome?_eq_none_iff.mpr hnone]
        rfl
  rcases ofList_cases lists.flatten with ⟨e, hfirst, heq⟩ | ⟨hnone, heq⟩
  · rw [heq, ofList, herror, hfirst]
  · rw [heq, ofList, herror, List.findSome?_eq_none_iff.mpr hnone]
    have hspliced : ∀ values ∈ lists, (ofList values).spliced = values.flatMap spliced := by
      intro values hvalues
      have hvaluesNone : ∀ v ∈ values, v.error? = none :=
        fun v hv => hnone v (List.mem_flatten.mpr ⟨values, hvalues, hv⟩)
      rcases ofList_cases values with ⟨e, hfirst, -⟩ | ⟨-, heq⟩
      · rw [List.findSome?_eq_none_iff.mpr hvaluesNone] at hfirst
        contradiction
      · rw [heq]
        apply spliced_ofItems
        intro i hi
        obtain ⟨v, hv, hi⟩ := List.mem_flatMap.mp hi
        exact ((h values hvalues v hv).spliced (hvaluesNone v hv) i hi).1
    have hflat : (lists.map ofList).flatMap spliced = lists.flatten.flatMap spliced := by
      rw [List.flatMap_map, List.flatMap_congr hspliced, List.flatten_eq_flatMap,
        List.flatMap_assoc]
      rfl
    simp only [hflat]

end TreeQuery.Item
