import TreeQuery.Proofs.Item.Fitted
import TreeQuery.Proofs.Item.WellFormed

/-!
# Compact values

A value is compact if splicing leaves its sequences as they are, at every depth: a sequence holds neither
sequences nor errors, and not a single item. Errors and `nil` are compact, and so are arrays and maps that
hold them. This is all that well-formed values and errors have in common that evaluation keeps: a variable
that is bound to an error may become a member of an array.
-/

namespace TreeQuery.Item

/-- A sequence that is what putting its items together gives. -/
def Settled : Item → Prop
  | .sequence items => items.length ≠ 1 ∧ ∀ i ∈ items, i.Plain
  | _ => True

/-- A value whose sequences are settled at every depth. -/
inductive Compact : Item → Prop
  | intro {value : Item} (settled : value.Settled) (inner : ∀ p ∈ value.parts, Compact p) : Compact value

variable {value : Item} {values : List Item}

private theorem Compact.settled (h : value.Compact) : value.Settled := by
  cases h with
  | intro settled _ => exact settled

private theorem Compact.of_mem_parts (h : value.Compact) : AllHave Compact value.parts := by
  cases h with
  | intro _ inner => exact inner

private theorem settled_of_not_isSequence (h : value.isSequence = false) : value.Settled := by
  cases value with
  | sequence => contradiction
  | _ => trivial

/-- An error is compact, for nothing is in it. -/
theorem compact_error (e : EvalError) : (Item.error e).Compact := ⟨trivial, allHave_nil⟩

/-- A compact value is flat. -/
theorem Compact.flat (h : value.Compact) : value.Flat := by
  induction h with
  | @intro value settled _ ih =>
    cases value with
    | sequence items => exact .sequence settled.2 ih
    | array members => exact .array ih
    | map entries => exact .map ih
    | function f =>
      cases f with
      | waiting base args =>
        exact .waiting (ih base (mem_parts_waiting.mpr (Or.inl rfl)))
          fun a ha => ih a (mem_parts_waiting.mpr (Or.inr ha))
      | _ => constructor
    | _ => constructor

/-- What a compact value puts into a sequence can stand there, unless the value is an error. -/
theorem Compact.spliced (h : value.Compact) (hvalue : value.error? = none) :
    ∀ i ∈ value.spliced, i.Plain ∧ i.Compact := by
  intro i hi
  refine ⟨(h.flat.spliced hvalue i hi).1, ?_⟩
  cases value with
  | sequence items => exact h.of_mem_parts i hi
  | _ =>
    obtain rfl := List.mem_singleton.mp hi
    exact h

private theorem compact_ofList (h : AllHave Compact values) : (ofList values).Compact := by
  rcases ofList_cases values with ⟨e, -, heq⟩ | ⟨hnone, heq⟩
  · exact heq ▸ compact_error e
  · have hspliced : ∀ i ∈ values.flatMap Item.spliced, i.Plain ∧ i.Compact := by
      intro i hi
      obtain ⟨v, hv, hi⟩ := List.mem_flatMap.mp hi
      exact (h v hv).spliced (hnone v hv) i hi
    rw [heq]
    unfold ofItems
    split
    · next hlist =>
      rw [hlist] at hspliced
      exact (hspliced _ (List.mem_singleton_self _)).2
    · next hlength =>
      refine ⟨⟨fun hone => ?_, fun i hi => (hspliced i hi).1⟩, fun i hi => (hspliced i hi).2⟩
      obtain ⟨i, hi⟩ := List.length_eq_one_iff.mp hone
      exact hlength i hi

/-- Nothing that evaluation does to compact values gives one that is not. -/
theorem closed_compact : Closed Compact :=
  closed_of_parts (P := Settled)
    (fun _ => ⟨fun h => ⟨h.settled, h.of_mem_parts⟩, fun h => ⟨h.1, h.2⟩⟩)
    (fun _ hvalue _ => settled_of_not_isSequence hvalue) (fun _ => trivial) compact_ofList

/-- Putting a compact value together with nothing else changes nothing. -/
theorem Compact.ofList_singleton (h : value.Compact) : ofList [value] = value := by
  rcases ofList_cases [value] with ⟨e, hfirst, heq⟩ | ⟨-, heq⟩
  · rw [heq]
    cases value <;> first | contradiction | exact congrArg Item.error (Option.some.inj hfirst).symm
  · rw [heq, List.flatMap_singleton]
    cases value with
    | sequence items => exact ofItems_of_length_ne_one h.settled.1
    | _ => rfl

end TreeQuery.Item

namespace TreeQuery

open Item

mutual

/-- Well-formed values are compact, by induction on how they are formed. -/
theorem Item.WellFormed.compact : {value : Item} → value.WellFormed → value.Compact
  | _, .integer _ | _, .decimal _ | _, .double _ | _, .string _ | _, .boolean _ | _, .node _ =>
    ⟨trivial, allHave_nil⟩
  | _, .sequence length flat inner =>
    ⟨⟨length, fun i hi => ⟨flat i hi, (inner i hi).error?_eq_none⟩⟩, fun i hi => (inner i hi).compact⟩
  | _, .array inner => ⟨trivial, fun m hm => (inner m hm).compact⟩
  | _, .map _ inner => ⟨trivial, fun v hv => (inner v hv).compact⟩
  | _, .function inner => ⟨trivial, inner.compact_parts⟩

private theorem FunctionItem.WellFormed.compact_parts :
    {f : FunctionItem} → f.WellFormed → AllHave Compact (Item.function f).parts
  | _, .named _ _ | _, .inline _ _ _ => allHave_nil
  | _, .waiting hbase inner => fun p hp =>
    (mem_parts_waiting.mp hp).elim (fun heq => heq ▸ hbase.compact) fun hp => (inner p hp).compact

end

end TreeQuery
