import Mathlib.Data.List.MinMax
import Mathlib.Order.Nat
import TreeQuery.Expr

/-!
# The expressions inside an expression

`children` are the expressions that stand directly inside another one, wherever they stand: among
arguments, links, bindings or entries. Induction over them is all that a statement about every
expression needs. `All p` says that `p` holds of an expression and of all that is inside it, and
`height` counts how far down that goes.
-/

namespace TreeQuery

/-- The expression of a computed key. -/
def LookupKey.children : LookupKey → List Expr
  | .computed e => [e]
  | _ => []

/-- The expression of an argument. -/
def Argument.children : Argument → List Expr
  | .value e => [e]
  | .placeholder => []

/-- The expressions in a link. -/
def Link.children : Link → List Expr
  | .predicate e => [e]
  | .call args => args.flatMap Argument.children
  | .lookup key => key.children

/-- The key and the value of an entry. -/
def Entry.children (e : Entry) : List Expr := [e.key, e.value]

namespace Expr

/-- The expressions that stand directly inside an expression. -/
def children : Expr → List Expr
  | .literal _ | .var _ | .contextItem | .root | .functionRef .. => []
  | .sequence members | .squareArray members => members
  | .binary _ left right | .path left right => [left, right]
  | .signed _ e | .rootPath e | .inlineFunction _ _ e | .curlyArray e | .instanceOf e _
  | .treatAs e _ | .castableAs e _ | .castAs e _ => [e]
  | .step _ _ predicates => predicates
  | .chain base links => base :: links.flatMap Link.children
  | .call _ args => args.flatMap Argument.children
  | .forEach bindings body | .letIn bindings body | .quantified _ bindings body =>
    bindings.map Binding.value ++ [body]
  | .ifThenElse condition whenTrue whenFalse => [condition, whenTrue, whenFalse]
  | .mapOf entries => entries.flatMap Entry.children
  | .arrowNamed base _ args => base :: args.flatMap Argument.children
  | .arrowDynamic base target args => base :: target :: args.flatMap Argument.children
  | .lookup key => key.children

private theorem sizeOf_lt_of_mem_arguments {args : List Argument} {c : Expr}
    (h : c ∈ args.flatMap Argument.children) : sizeOf c < sizeOf args := by
  obtain ⟨a, ha, hc⟩ := List.mem_flatMap.mp h
  have hlt := List.sizeOf_lt_of_mem ha
  cases a with
  | value e =>
    obtain rfl := List.mem_singleton.mp hc
    simp only [Argument.value.sizeOf_spec] at hlt
    omega
  | placeholder => contradiction

private theorem sizeOf_lt_of_mem_key {key : LookupKey} {c : Expr} (h : c ∈ key.children) :
    sizeOf c < sizeOf key := by
  cases key with
  | computed e =>
    obtain rfl := List.mem_singleton.mp h
    simp only [LookupKey.computed.sizeOf_spec]
    omega
  | name _ | index _ | all => contradiction

private theorem sizeOf_lt_of_mem_links {links : List Link} {c : Expr}
    (h : c ∈ links.flatMap Link.children) : sizeOf c < sizeOf links := by
  obtain ⟨l, hl, hc⟩ := List.mem_flatMap.mp h
  have hlt := List.sizeOf_lt_of_mem hl
  cases l with
  | predicate e =>
    obtain rfl := List.mem_singleton.mp hc
    simp only [Link.predicate.sizeOf_spec] at hlt
    omega
  | call args =>
    have hargs := sizeOf_lt_of_mem_arguments hc
    simp only [Link.call.sizeOf_spec] at hlt
    omega
  | lookup key =>
    have hkey := sizeOf_lt_of_mem_key hc
    simp only [Link.lookup.sizeOf_spec] at hlt
    omega

private theorem sizeOf_lt_of_mem_bindings {bindings : List Binding} {c : Expr}
    (h : c ∈ bindings.map Binding.value) : sizeOf c < sizeOf bindings := by
  obtain ⟨b, hb, rfl⟩ := List.mem_map.mp h
  have hlt := List.sizeOf_lt_of_mem hb
  have hvalue : sizeOf b.value < sizeOf b := by
    cases b
    simp only [Binding.mk.sizeOf_spec]
    omega
  omega

private theorem sizeOf_lt_of_mem_entries {entries : List Entry} {c : Expr}
    (h : c ∈ entries.flatMap Entry.children) : sizeOf c < sizeOf entries := by
  obtain ⟨⟨key, value⟩, he, hc⟩ := List.mem_flatMap.mp h
  have hlt := List.sizeOf_lt_of_mem he
  simp only [Entry.mk.sizeOf_spec] at hlt
  simp only [Entry.children, List.mem_cons, List.not_mem_nil, or_false] at hc
  rcases hc with rfl | rfl <;> omega

/-- What stands inside is smaller. -/
theorem sizeOf_lt_of_mem_children {e c : Expr} (h : c ∈ e.children) : sizeOf c < sizeOf e := by
  cases e with
  | sequence members | squareArray members | step _ _ members =>
    have hlt := List.sizeOf_lt_of_mem (show c ∈ members from h)
    simp only [sequence.sizeOf_spec, squareArray.sizeOf_spec, step.sizeOf_spec]
    omega
  | chain base links =>
    rcases List.mem_cons.mp h with rfl | h
    · simp only [chain.sizeOf_spec]
      omega
    · have hlt := sizeOf_lt_of_mem_links h
      simp only [chain.sizeOf_spec]
      omega
  | call _ args =>
    have hlt := sizeOf_lt_of_mem_arguments h
    simp only [call.sizeOf_spec]
    omega
  | forEach bindings body | letIn bindings body | quantified _ bindings body =>
    simp only [forEach.sizeOf_spec, letIn.sizeOf_spec, quantified.sizeOf_spec]
    rcases List.mem_append.mp h with h | h
    · have hlt := sizeOf_lt_of_mem_bindings h
      omega
    · obtain rfl := List.mem_singleton.mp h
      omega
  | mapOf entries =>
    have hlt := sizeOf_lt_of_mem_entries h
    simp only [mapOf.sizeOf_spec]
    omega
  | arrowNamed base _ args =>
    simp only [arrowNamed.sizeOf_spec]
    rcases List.mem_cons.mp h with rfl | h
    · omega
    · have hlt := sizeOf_lt_of_mem_arguments h
      omega
  | arrowDynamic base target args =>
    simp only [arrowDynamic.sizeOf_spec]
    rcases List.mem_cons.mp h with rfl | h
    · omega
    · rcases List.mem_cons.mp h with rfl | h
      · omega
      · have hlt := sizeOf_lt_of_mem_arguments h
        omega
  | lookup key =>
    have hlt := sizeOf_lt_of_mem_key h
    simp only [lookup.sizeOf_spec]
    omega
  | binary _ left right | path left right =>
    simp only [children, List.mem_cons, List.not_mem_nil, or_false] at h
    simp only [binary.sizeOf_spec, path.sizeOf_spec]
    rcases h with rfl | rfl <;> omega
  | ifThenElse condition whenTrue whenFalse =>
    simp only [children, List.mem_cons, List.not_mem_nil, or_false] at h
    simp only [ifThenElse.sizeOf_spec]
    rcases h with rfl | rfl | rfl <;> omega
  | signed _ e | rootPath e | inlineFunction _ _ e | curlyArray e | instanceOf e _ | treatAs e _
  | castableAs e _ | castAs e _ =>
    obtain rfl := List.mem_singleton.mp h
    simp only [signed.sizeOf_spec, rootPath.sizeOf_spec, inlineFunction.sizeOf_spec,
      curlyArray.sizeOf_spec, instanceOf.sizeOf_spec, treatAs.sizeOf_spec, castableAs.sizeOf_spec,
      castAs.sizeOf_spec]
    omega
  | literal _ | var _ | contextItem | root | functionRef _ _ => contradiction

/-- An expression of which `p` holds, and of everything inside it too. -/
inductive All (p : Expr → Prop) : Expr → Prop where
  | intro {e : Expr} (here : p e) (inside : ∀ c ∈ e.children, All p c) : All p e

/-- What holds of all expressions in an expression holds of itself. -/
theorem All.here {p : Expr → Prop} {e : Expr} (h : e.All p) : p e := by
  cases h with
  | intro here inside => exact here

/-- What holds of all expressions in an expression holds of all in each of its children. -/
theorem All.inside {p : Expr → Prop} {e : Expr} (h : e.All p) : ∀ c ∈ e.children, c.All p := by
  cases h with
  | intro here inside => exact inside

/-- A weaker property holds of all expressions too. -/
theorem All.imp {p q : Expr → Prop} (hpq : ∀ e, p e → q e) {e : Expr} (h : e.All p) : e.All q := by
  induction h with
  | intro here inside ih => exact .intro (hpq _ here) ih

/-- What holds of an expression as soon as it holds of those inside it holds of every expression. -/
theorem induction {motive : Expr → Prop} (h : ∀ e, (∀ c ∈ e.children, motive c) → motive e)
    (e : Expr) : motive e := by
  induction hn : sizeOf e using Nat.strongRecOn generalizing e with
  | ind n ih =>
    refine h e fun c hc => ih _ ?_ c rfl
    rw [← hn]
    exact sizeOf_lt_of_mem_children hc

/-- How many expressions lie inside each other, below the outermost one. -/
def height (e : Expr) : Nat :=
  (e.children.attach.map fun c => c.1.height + 1).foldr max 0
termination_by sizeOf e
decreasing_by exact sizeOf_lt_of_mem_children c.2

/-- What stands inside is not as high. -/
theorem height_lt_of_mem_children {e c : Expr} (h : c ∈ e.children) : c.height < e.height := by
  rw [height.eq_def e]
  have hmem : c.height + 1 ∈ e.children.attach.map fun c => c.1.height + 1 :=
    List.mem_map.mpr ⟨⟨c, h⟩, List.mem_attach _ _, rfl⟩
  exact List.le_max_of_le hmem (Nat.le_refl _)

/-- An expression is higher than its children by one level at most. -/
theorem height_le {e : Expr} {n : Nat} (h : ∀ c ∈ e.children, c.height < n) : e.height ≤ n := by
  rw [height.eq_def]
  refine List.max_le_of_forall_le _ _ fun m hm => ?_
  obtain ⟨c, -, rfl⟩ := List.mem_map.mp hm
  exact h c.1 c.2

end Expr

end TreeQuery
