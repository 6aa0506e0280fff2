import TreeQuery.Proofs.Item.Flat

/-!
# Waiting calls that fit

A call that waits for arguments has a place for each argument that its base takes. This is asked at every
depth: of the base of a waiting call, of the arguments that it holds, and of everything in sequences,
arrays and maps.
-/

namespace TreeQuery.Item

/-- The values that a value is made of. -/
def parts : Item → List Item
  | .sequence items => items
  | .array members => members
  | .map entries => Table.values entries
  | .function (.waiting base args) => base :: args.filterMap id
  | _ => []

/-- A waiting call has as many places as its base takes arguments. -/
def Fits : Item → Prop
  | .function (.waiting base args) => base.arity = .ok args.length
  | _ => True

/-- A value whose waiting calls fit at every depth. -/
inductive Fitted : Item → Prop
  | intro {value : Item} (fits : value.Fits) (inner : ∀ p ∈ value.parts, Fitted p) : Fitted value

variable {value base : Item} {args : List (Option Item)}

private theorem Fitted.fits (h : value.Fitted) : value.Fits := by
  cases h with
  | intro fits _ => exact fits

private theorem Fitted.of_mem_parts (h : value.Fitted) : AllHave Fitted value.parts := by
  cases h with
  | intro _ inner => exact inner

/-- The base of a waiting call takes as many arguments as there are places. -/
theorem Fitted.arity_base (h : (Item.function (.waiting base args)).Fitted) :
    base.arity = .ok args.length := h.fits

/-- The parts of a function that waits for arguments are the function and the values it has. -/
theorem mem_parts_waiting {part : Item} :
    part ∈ (Item.function (.waiting base args)).parts ↔ part = base ∨ some part ∈ args := by
  rw [parts, List.mem_cons, List.mem_filterMap]
  exact or_congr_right ⟨fun ⟨_, ha, heq⟩ => heq ▸ ha, fun h => ⟨_, h, rfl⟩⟩

/-- A property is closed if it says something of a value and holds of all its parts, provided that what it
says can fail for sequences and waiting calls only, and sequences that are put together have it. -/
theorem closed_of_parts {W P : Item → Prop} (hW : ∀ v, W v ↔ P v ∧ AllHave W v.parts)
    (hother : ∀ v : Item, v.isSequence = false → (∀ base args, v ≠ .function (.waiting base args)) → P v)
    (hwaiting : ∀ {base args}, base.arity = .ok args.length → P (.function (.waiting base args)))
    (hlist : ∀ {values}, AllHave W values → W (ofList values)) : Closed W where
  ofAtomic a := by cases a <;> exact (hW _).mpr ⟨hother _ rfl nofun, allHave_nil⟩
  node _ := (hW _).mpr ⟨hother _ rfl nofun, allHave_nil⟩
  named _ _ := (hW _).mpr ⟨hother _ rfl nofun, allHave_nil⟩
  inline _ _ _ := (hW _).mpr ⟨hother _ rfl nofun, allHave_nil⟩
  waiting harity hbase hargs := by
    refine (hW _).mpr ⟨hwaiting harity, fun p hp => ?_⟩
    rcases mem_parts_waiting.mp hp with rfl | hp
    · exact hbase
    · exact hargs p hp
  ofWaiting h := by
    have hparts := ((hW _).mp h).2
    refine ⟨hparts _ (mem_parts_waiting.mpr (Or.inl rfl)), fun a ha => ?_⟩
    exact hparts a (mem_parts_waiting.mpr (Or.inr ha))
  array h := (hW _).mpr ⟨hother _ rfl nofun, h⟩
  ofArray h := ((hW _).mp h).2
  put key h hvalue := by
    refine (hW _).mpr ⟨hother _ rfl nofun, fun v hv => ?_⟩
    rcases Table.mem_values_put hv with rfl | hv
    · exact hvalue
    · exact ((hW _).mp h).2 v hv
  ofEntries h := by
    refine (Table.gives_ofEntries _).map fun t ht => (hW _).mpr ⟨hother _ rfl nofun, fun v hv => ?_⟩
    exact h v (ht.2 ▸ hv)
  ofMap h := ((hW _).mp h).2
  items {value} h := by
    cases value with
    | sequence items => exact ((hW _).mp h).2
    | nil => exact allHave_nil
    | _ => exact allHave_cons.mpr ⟨h, allHave_nil⟩
  ofList := hlist

private theorem Fitted.spliced (h : value.Fitted) : AllHave Fitted value.spliced := by
  cases value with
  | sequence items => exact h.of_mem_parts
  | _ => exact allHave_cons.mpr ⟨h, allHave_nil⟩

private theorem fitted_ofItems {items : List Item} (h : AllHave Fitted items) :
    (ofItems items).Fitted := by
  unfold ofItems
  split
  · exact h _ (List.mem_singleton_self _)
  · exact ⟨trivial, h⟩

private theorem fitted_ofList {values : List Item} (h : AllHave Fitted values) :
    (ofList values).Fitted := by
  rcases ofList_cases values with ⟨e, -, heq⟩ | ⟨-, heq⟩
  · rw [heq]
    exact ⟨trivial, allHave_nil⟩
  · have hspliced : AllHave Fitted (values.flatMap Item.spliced) := by
      intro i hi
      obtain ⟨v, hv, hi⟩ := List.mem_flatMap.mp hi
      exact (h v hv).spliced i hi
    rw [heq]
    exact fitted_ofItems hspliced

/-- Nothing that evaluation does to fitted values gives one that is not. -/
theorem closed_fitted : Closed Fitted :=
  closed_of_parts (P := Fits)
    (fun _ => ⟨fun h => ⟨h.fits, h.of_mem_parts⟩, fun h => ⟨h.1, h.2⟩⟩)
    (fun value _ hwaiting => by cases value with
      | function f => cases f with
        | waiting base args => exact absurd rfl (hwaiting base args)
        | _ => trivial
      | _ => trivial)
    (fun harity => harity) fitted_ofList

end TreeQuery.Item
