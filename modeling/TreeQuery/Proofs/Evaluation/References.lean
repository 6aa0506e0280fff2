import TreeQuery.Proofs.Evaluation.Keeping
import TreeQuery.Proofs.Library.Related
import TreeQuery.Proofs.Registry

/-!
# References to functions

Functions are found twice, by calls and by references to them. A call looks for a constructor first and
for a function of the registry only if there is none; a reference takes both into account. So they agree
unless a function is registered under the name of a constructor, and is shadowed by it: it can be
referred to, but a call does not reach it. Whatever can be referred to behaves like a call of its name.
-/

namespace TreeQuery

/-! ### What a call runs -/

/-- What is called under a name. -/
inductive Callee where
  /-- The constructor of a type. -/
  | constructor (type : AtomicType)
  /-- A function of the registry. -/
  | library (f : LibraryFunction)

/-- Runs what is called. A constructor casts its only argument. -/
def Callee.run (deeper : Deeper) : Callee → List Item → Eval Item
  | .constructor type, args => Eval.reading fun c => (args.headD .empty).cast c.forest ⟨type, true⟩
  | .library f, args => Eval.descend do
      let value ← f.run deeper.call args
      Eval.reading fun _ => value.toResult

namespace Registry

variable {r : Registry} {name : QName} {n : Nat}

/-- What is called under a name with so many arguments, if the name is known and their number is right. -/
def callee (r : Registry) (name : QName) (n : Nat) : Except EvalError Callee :=
  match constructorType? name with
  | some type => if n = 1 then .ok (.constructor type) else .error (.arityMismatch name.render n "1")
  | none =>
    match r.resolve? name with
    | none => .error (.undefinedFunction name.render n)
    | some f =>
      if f.accepts n then .ok (.library f)
      else .error (.arityMismatch name.render n f.describeArity)

/-- A call checks the name and the number of its arguments before anything else. -/
theorem callNamed_eq (r : Registry) (deeper : Deeper) (name : QName) (args : List Item) :
    Eval.callNamed r deeper name args =
      match r.callee name args.length with
      | .ok callee => callee.run deeper args
      | .error e => throw e := by
  rw [Eval.callNamed, callee]
  cases constructorType? name with
  | some type =>
    match args with
    | [] => rfl
    | [value] => rfl
    | first :: second :: args =>
      dsimp only
      rw [if_neg (by simp)]
  | none =>
    cases r.resolve? name with
    | none => rfl
    | some f =>
      dsimp only
      split <;> rfl

/-! ### What can be referred to -/

/-- A function of the registry that takes so many arguments stands under the name of a constructor, which
takes another number of them. -/
def Shadows (r : Registry) (name : QName) (n : Nat) : Prop :=
  (constructorType? name).isSome = true ∧ n ≠ 1 ∧ ∃ f, r.resolve? name = some f ∧ f.accepts n = true

/-- A reference finds what a call does, and what a constructor hides from a call. -/
theorem knows_iff :
    r.knows name n = true ↔ (∃ callee, r.callee name n = .ok callee) ∨ r.Shadows name n := by
  rw [knows, callee, Shadows]
  cases constructorType? name with
  | some type =>
    by_cases hn : n = 1
    · simp [hn]
    · cases r.resolve? name <;> simp [hn]
  | none =>
    cases r.resolve? name with
    | none => simp
    | some f => cases h : f.accepts n <;> simp [h]

/-- A function that is shadowed is not reached: the constructor takes one argument. -/
theorem callee_of_shadows (h : r.Shadows name n) :
    r.callee name n = .error (.arityMismatch name.render n "1") := by
  obtain ⟨hconstructor, hn, -⟩ := h
  obtain ⟨type, htype⟩ := Option.isSome_iff_exists.mp hconstructor
  rw [callee, htype]
  exact if_neg hn

/-- Unless something is shadowed, references and calls find the same functions. -/
theorem knows_iff_callee (h : ¬ r.Shadows name n) :
    r.knows name n = true ↔ ∃ callee, r.callee name n = .ok callee := by
  rw [knows_iff, or_iff_left h]

private theorem reference_eq_ok_iff {item : Item} :
    r.reference name n = .ok item ↔ r.knows name n = true ∧ item = .function (.named name n) := by
  rw [reference]
  split
  · next h => rw [and_iff_right h, Except.ok.injEq, eq_comm]
  · next h => exact iff_of_false nofun fun hknows => h hknows.1

/-! ### Registrations -/

/-- The name of a type that has a constructor. -/
def IsConstructorName (s : String) : Prop :=
  ∃ type : AtomicType, type ≠ .anyAtomic ∧ type ≠ .numeric ∧ s = type.name

private theorem constructorType?_eq_some_iff {type : AtomicType} : constructorType? name = some type ↔
    name = ⟨some "xs", type.localName⟩ ∧ type ≠ .anyAtomic ∧ type ≠ .numeric := by
  constructor
  · intro h
    rw [constructorType?, Option.ite_none_right_eq_some, Option.filter_eq_some_iff] at h
    obtain ⟨hqualifier, htype, hother⟩ := h
    rw [AtomicType.ofName?, if_pos (.inr hqualifier)] at htype
    have hlocal := List.find?_some htype
    rw [Bool.and_eq_true, bne_iff_ne, bne_iff_ne] at hother
    refine ⟨?_, hother⟩
    obtain ⟨qualifier, localName⟩ := name
    rw [beq_iff_eq] at hlocal
    exact congrArg₂ QName.mk hqualifier hlocal.symm
  · rintro ⟨rfl, htype, htype'⟩
    cases type <;> first | rfl | contradiction

/-- A function under the name of a constructor stands there with its qualifier. -/
theorem resolve?_constructor (r : Registry) (type : AtomicType) :
    r.resolve? ⟨some "xs", type.localName⟩ = r.find? type.name := by
  rw [resolve?, if_neg (by simp)]
  rfl

private theorem Shadows.exists_name (h : r.Shadows name n) :
    ∃ f ∈ r.functions, IsConstructorName f.name := by
  obtain ⟨hconstructor, -, f, hf, -⟩ := h
  obtain ⟨type, htype⟩ := Option.isSome_iff_exists.mp hconstructor
  obtain ⟨rfl, hother⟩ := constructorType?_eq_some_iff.mp htype
  rw [resolve?_constructor, find?] at hf
  have hname := List.find?_some hf
  exact ⟨f, List.mem_of_find?_eq_some hf, type, hother.1, hother.2, beq_iff_eq.mp hname⟩

private theorem name_of_mem_register {f g : LibraryFunction} (h : g ∈ (r.register f).functions) :
    g ∈ r.functions ∨ g.name = withoutDefault f.name := by
  rcases List.mem_append.mp h with h | h
  · exact .inl (List.mem_filter.mp h).1
  · rw [List.mem_singleton.mp h]
    exact .inr rfl

/-- No function of the library stands under the name of a constructor. -/
theorem not_isConstructorName_library : ∀ f ∈ library.functions, ¬ IsConstructorName f.name := by
  have hprefix : ∀ f ∈ Library.functions, f.name.toList.take 3 ≠ ['x', 's', ':'] := by
    decide +kernel
  rw [functions_library]
  rintro f hf ⟨type, -, -, hname⟩
  refine hprefix f hf ?_
  rw [hname]
  cases type <;> rfl

/-- What holds of the names in a registry and of all names that are registered holds of all names there. -/
theorem names_of_history {P : String → Prop} {history : List LibraryFunction}
    (h : ∀ f ∈ history, P (withoutDefault f.name)) (hr : ∀ f ∈ r.functions, P f.name) :
    ∀ f ∈ (history.foldl register r).functions, P f.name := by
  induction history generalizing r with
  | nil => exact hr
  | cons f history ih =>
    obtain ⟨hf, hhistory⟩ := List.forall_mem_cons.mp h
    refine ih hhistory fun g hg => ?_
    rcases name_of_mem_register hg with hg | hg
    · exact hr g hg
    · exact hg ▸ hf

/-- No history of registrations shadows anything unless the name of a constructor is among them. -/
theorem not_shadows_of_history {history : List LibraryFunction}
    (h : ∀ f ∈ history, ¬ IsConstructorName (withoutDefault f.name)) :
    ¬ (history.foldl register library).Shadows name n := by
  intro hshadows
  obtain ⟨f, hf, hname⟩ := hshadows.exists_name
  exact names_of_history (P := fun s => ¬ IsConstructorName s) h not_isConstructorName_library f hf hname

/-- A function that is registered under the name of a constructor is shadowed, with whatever number of
arguments it takes but one. -/
theorem shadows_register (r : Registry) {f : LibraryFunction} {type : AtomicType}
    (htype : type ≠ .anyAtomic ∧ type ≠ .numeric) (hname : f.name = type.name) (hn : n ≠ 1)
    (haccepts : f.accepts n = true) : (r.register f).Shadows ⟨some "xs", type.localName⟩ n := by
  have hplain : withoutDefault f.name = type.name := by
    rw [hname]
    cases type <;> rfl
  refine ⟨?_, hn, { f with name := withoutDefault f.name }, ?_, haccepts⟩
  · rw [constructorType?_eq_some_iff.mpr ⟨rfl, htype⟩]
    rfl
  · rw [resolve?_constructor, ← hplain, find?_register, if_pos rfl]

end Registry

namespace Eval

variable {registry : Registry} {deeper : Deeper}

/-! ### Calls of references -/

/-- A function that was referred to by its name is called like that name. -/
theorem callItem_named {name : QName} {n : Nat} {args : List Item} (h : args.length = n) :
    callItem registry deeper (.function (.named name n)) args =
      callNamed registry deeper name args := by
  rw [callItem, callFunction, if_pos h]

/-- A reference that is not shadowed runs what a call by its name runs: the name and the number of
arguments are not found wrong any more. -/
theorem callItem_named_of_callee {name : QName} {args : List Item} {callee : Callee}
    (h : registry.callee name args.length = .ok callee) :
    callItem registry deeper (.function (.named name args.length)) args = callee.run deeper args := by
  rw [callItem_named rfl, registry.callNamed_eq, h]

/-- A reference to a shadowed function fails when it is called, as the constructor does. -/
theorem callItem_named_of_shadows {name : QName} {args : List Item}
    (h : registry.Shadows name args.length) :
    callItem registry deeper (.function (.named name args.length)) args =
      throw (.arityMismatch name.render args.length "1") := by
  rw [callItem_named rfl, registry.callNamed_eq, Registry.callee_of_shadows h]

/-- Unless something is shadowed, a function can be referred to if and only if a call finds it, and the
reference runs what the call runs. -/
theorem callItem_reference {name : QName} {args : List Item} (h : ¬ registry.Shadows name args.length) :
    registry.reference name args.length = .ok (.function (.named name args.length)) ↔
      ∃ callee, registry.callee name args.length = .ok callee ∧
        callItem registry deeper (.function (.named name args.length)) args = callee.run deeper args := by
  rw [Registry.reference_eq_ok_iff, and_iff_left rfl, Registry.knows_iff_callee h]
  exact exists_congr fun callee => (and_iff_left_of_imp callItem_named_of_callee).symm

/-- Arguments are complete if each of them has a value. -/
theorem completeArguments_eq_some_iff {args : List (Option Item)} {values : List Item} :
    completeArguments args = some values ↔ args = values.map some := by
  induction args generalizing values with
  | nil => cases values <;> simp [completeArguments]
  | cons arg args ih =>
    simp only [completeArguments, List.mapM_cons, id, Option.bind_eq_bind, Option.bind_eq_some_iff]
    constructor
    · rintro ⟨value, rfl, rest, hrest, hvalues⟩
      obtain rfl := Option.some.inj hvalues
      rw [List.map_cons, ih.mp hrest]
    · intro h
      cases values with
      | nil => contradiction
      | cons value values =>
        obtain ⟨rfl, hvalues⟩ := List.cons.inj h
        exact ⟨value, rfl, values, ih.mpr hvalues, rfl⟩

/-- There are as many values and gaps as arguments. -/
theorem results_length_arguments (args : List Argument) :
    Results (fun values => values.length = args.length) (arguments registry deeper args) := by
  induction args with
  | nil =>
    rw [arguments]
    exact fun _ => .ok rfl
  | cons arg args ih =>
    have hcons (value : Option Item) : Results (fun values => values.length = (arg :: args).length)
        (do return value :: (← arguments registry deeper args)) :=
      ih.bind fun values hvalues _ => .ok (congrArg Nat.succ hvalues)
    cases arg with
    | value e =>
      rw [arguments]
      exact Results.bind (P := fun _ => True) (fun _ _ _ => trivial) fun value _ => hcons (some value)
    | placeholder =>
      rw [arguments]
      exact hcons none

/-- With all arguments or with gaps among them, a reference to a function is called like its name. -/
theorem callByValue_named {name : QName} {args : List (Option Item)}
    (h : registry.knows name args.length = true) :
    callByValue registry deeper (.function (.named name args.length)) args =
      callByName registry deeper name args := by
  rw [callByValue, callByName]
  cases hcomplete : completeArguments args with
  | some values =>
    refine callItem_named ?_
    rw [completeArguments_eq_some_iff.mp hcomplete, List.length_map]
  | none =>
    dsimp only
    rw [Registry.reference_eq_ok_iff.mpr ⟨h, rfl⟩]
    change (if args.length = args.length then _ else _) = _
    rw [if_pos rfl]
    rfl

private theorem bind_congr_of_results {α β : Type} {P : α → Prop} {m : Eval α} {f g : α → Eval β}
    (hm : Results P m) (h : ∀ a, P a → f a = g a) : m >>= f = m >>= g := by
  refine ExceptT.ext (StateT.ext fun c => ?_)
  have hresult := hm c
  rw [run_bind, run_bind]
  split
  · next a d hrun =>
    rw [hrun] at hresult
    rw [h a (hresult a rfl)]
  · rfl

/-- Calling what a reference evaluates to is calling the function by its name, whatever the arguments. -/
theorem expr_call_reference {name : QName} {args : List Argument}
    (h : registry.knows name args.length = true) :
    expr registry deeper (.chain (.functionRef name args.length) [.call args]) =
      expr registry deeper (.call name args) := by
  have hreference : expr registry deeper (.functionRef name args.length) =
      pure (.function (.named name args.length)) := by
    rw [expr, Registry.reference_eq_ok_iff.mpr ⟨h, rfl⟩]
    rfl
  rw [expr, hreference, pure_bind, expr, links]
  -- Both evaluate the arguments first, and there are as many values as expressions.
  refine bind_congr_of_results (results_length_arguments args) fun values hvalues => ?_
  simp only [links, bind_pure]
  rw [← hvalues] at h ⊢
  exact callByValue_named h

end Eval

end TreeQuery
