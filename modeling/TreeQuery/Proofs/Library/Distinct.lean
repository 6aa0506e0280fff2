import Mathlib.Data.List.Induction
import TreeQuery.Proofs.Evaluation.Values
import TreeQuery.Proofs.Item.Atomize
import TreeQuery.Proofs.Operator.Comparison

/-!
# Distinct values

`distinct-values` keeps a value unless it is the same as one that was kept before. To be the same is no
equivalence: two decimals that are different can both be the same as a double that is near. So there are no
classes of which one value each is kept; what can be said is said of every value and of those that were
kept in front of it.
-/

namespace TreeQuery

/-! ### Sameness -/

namespace Atomic

variable {a b : Atomic}

/-- A value as it stands in a result: an untyped text has become a string. -/
def typed : Atomic → Atomic
  | .untyped s => .string s
  | a => a

/-- Untyped texts are compared as strings. -/
theorem same_typed (a b : Atomic) : a.typed.same b.typed = a.same b := by
  cases a <;> cases b <;> rfl

private theorem typed_typed (a : Atomic) : a.typed.typed = a.typed := by
  cases a <;> rfl

/-- Two doubles that are not numbers are the same. -/
theorem same_of_isNotANumber (ha : a.isNotANumber = true) (hb : b.isNotANumber = true) :
    a.same b = true := by
  cases a with
  | double x =>
    cases b with
    | double y =>
      have horder : order "eq" (.double x) (.double y) = .ok none := by
        rw [order_numbers rfl rfl]
        exact congrArg Except.ok (compareDoubles_of_isNaN ha _)
      rw [same, horder]
      exact Bool.and_eq_true_iff.mpr ⟨ha, hb⟩
    | _ => contradiction
  | _ => contradiction

end Atomic

namespace Item

variable {forest : Forest}

private theorem ofAtomic_typed (a : Atomic) : ofAtomic a.typed = ofAtomic a := by
  cases a <;> rfl

private theorem atomize_ofAtomic (a : Atomic) : (ofAtomic a).atomize forest = .ok [a.typed] := by
  cases a <;> rfl

private theorem atomize_ofAtomics (as : List Atomic) :
    (ofList (as.map ofAtomic)).atomize forest = .ok (as.map Atomic.typed) := by
  have herror : ∀ v ∈ as.map ofAtomic, v.error? = none := by
    refine List.forall_mem_map.mpr fun a _ => ?_
    cases a <;> rfl
  rw [atomize_ofList herror]
  clear herror
  induction as with
  | nil => rfl
  | cons a as ih =>
    rw [List.map_cons, atomizeEach_cons, atomize_ofAtomic, ih]
    rfl

end Item

/-! ### What is kept -/

namespace Library

variable {as bs : List Atomic} {a : Atomic}

/-- A last value is kept unless it is the same as one that is kept. -/
theorem distinct_concat (as : List Atomic) (a : Atomic) :
    distinct (as ++ [a]) = if (distinct as).any (·.same a) then distinct as else distinct as ++ [a] := by
  have hfrom (seen : List Atomic) : distinctFrom seen (as ++ [a]) =
      if (distinctFrom seen as).any (·.same a) then distinctFrom seen as
      else distinctFrom seen as ++ [a] := by
    induction as generalizing seen with
    | nil => simp [distinctFrom]
    | cons b as ih =>
      rw [List.cons_append, distinctFrom, distinctFrom]
      split <;> exact ih _
  exact hfrom []

private theorem sublist_distinct (as : List Atomic) : (distinct as).Sublist as := by
  induction as using List.reverseRecOn with
  | nil => exact .slnil
  | append_singleton as a ih =>
    rw [distinct_concat]
    split
    · exact ih.trans (List.sublist_append_left as [a])
    · exact ih.append (.refl [a])

/-- No value that is kept is the same as one that was kept before. -/
theorem pairwise_distinct (as : List Atomic) :
    (distinct as).Pairwise fun earlier later => earlier.same later = false := by
  induction as using List.reverseRecOn with
  | nil => exact .nil
  | append_singleton as a ih =>
    rw [distinct_concat]
    split
    · exact ih
    · next hnew =>
      refine List.pairwise_append.mpr ⟨ih, List.pairwise_singleton _ _, fun s hs b hb => ?_⟩
      rw [List.mem_singleton.mp hb]
      simpa using fun hsame => hnew (List.any_eq_true.mpr ⟨s, hs, hsame⟩)

/-- What is kept of the first values stays at the front. -/
theorem exists_distinct_append (as bs : List Atomic) :
    ∃ later, distinct (as ++ bs) = distinct as ++ later := by
  induction bs using List.reverseRecOn with
  | nil => exact ⟨[], by simp⟩
  | append_singleton bs b ih =>
    obtain ⟨later, hlater⟩ := ih
    rw [← List.append_assoc, distinct_concat]
    split
    · exact ⟨later, hlater⟩
    · exact ⟨later ++ [b], by rw [hlater, List.append_assoc]⟩

/-- A value is kept, or it is the same as one that was kept before. -/
theorem kept_or_same (before : List Atomic) (a : Atomic) (after : List Atomic) :
    ∃ earlier later, distinct (before ++ a :: after) = earlier ++ later ∧ earlier.Sublist before ∧
      ((∃ s ∈ earlier, s.same a = true) ∨ later.head? = some a) := by
  by_cases hsame : (distinct before).any (·.same a) = true
  · obtain ⟨later, hlater⟩ := exists_distinct_append before (a :: after)
    exact ⟨_, later, hlater, sublist_distinct before, Or.inl (List.any_eq_true.mp hsame)⟩
  · obtain ⟨later, hlater⟩ := exists_distinct_append (before ++ [a]) after
    rw [distinct_concat, if_neg hsame, List.append_assoc, List.append_assoc] at hlater
    exact ⟨_, a :: later, hlater, sublist_distinct before, Or.inr rfl⟩

/-- Where no value is the same as an earlier one, all are kept. -/
theorem distinct_of_pairwise (h : as.Pairwise fun earlier later => earlier.same later = false) :
    distinct as = as := by
  induction as using List.reverseRecOn with
  | nil => rfl
  | append_singleton as a ih =>
    obtain ⟨has, -, hlast⟩ := List.pairwise_append.mp h
    rw [distinct_concat, ih has, if_neg]
    rw [List.any_eq_true]
    rintro ⟨s, hs, hsame⟩
    rw [hlast s hs a (List.mem_singleton_self a)] at hsame
    contradiction

/-- Untyped texts are told apart as strings. -/
theorem distinct_map_typed (as : List Atomic) :
    distinct (as.map Atomic.typed) = (distinct as).map Atomic.typed := by
  induction as using List.reverseRecOn with
  | nil => rfl
  | append_singleton as a ih =>
    have hany : ((distinct as).map Atomic.typed).any (·.same a.typed) =
        (distinct as).any (·.same a) := by
      rw [List.any_map]
      exact congrArg (List.any _ ·) (funext fun s => s.same_typed a)
    rw [List.map_append, List.map_singleton, distinct_concat, distinct_concat, ih, hany]
    split
    · rfl
    · rw [List.map_append, List.map_singleton]

/-- Of the doubles that are not numbers at most one is kept. -/
theorem length_filter_isNotANumber (as : List Atomic) :
    ((distinct as).filter Atomic.isNotANumber).length ≤ 1 := by
  have hpairwise := (pairwise_distinct as).filter Atomic.isNotANumber
  match hkept : (distinct as).filter Atomic.isNotANumber with
  | [] | [_] => simp
  | a :: b :: rest =>
    have hnan : ∀ s ∈ a :: b :: rest, s.isNotANumber = true := by
      rw [← hkept]
      exact fun s hs => (List.mem_filter.mp hs).2
    rw [hkept] at hpairwise
    have hdifferent := List.rel_of_pairwise_cons hpairwise (List.mem_cons_self)
    rw [Atomic.same_of_isNotANumber (hnan a (by simp)) (hnan b (by simp))] at hdifferent
    contradiction

end Library

/-! ### Calls -/

namespace Eval

variable {c : Context} {e : Expr} {x : Item} {as : List Atomic}

/-- `distinct-values(e)` -/
def distinctValues (e : Expr) : Expr := .call (.simple "distinct-values") [.value e]

private theorem valueIn_distinctValues (hdepth : c.depth < c.limits.depth)
    (he : valueIn .library c e = .ok x)
    (has : x.atomize c.forest = .ok as) :
    valueIn .library c (distinctValues e) =
      .ok (.ofList ((Library.distinct (as.map Atomic.typed)).map .ofAtomic)) := by
  have hf : Registry.library.resolve? (.simple "distinct-values") =
      some (.unary "distinct-values" fun forest x => do
        return .ofList ((Library.distinct (← x.atomize forest)).map .ofAtomic)) :=
    (Registry.resolve?_library_simple _).trans rfl
  have hes : List.Forall₂ (fun e v => valueIn .library c e = .ok v) [e] [x] := .cons he .nil
  have hvalue (kept : List Atomic) : (Item.ofList (kept.map .ofAtomic)).WellFormed :=
    Item.wellFormed_ofList (allHave_map (fun a => (Item.single_ofAtomic a).1) kept)
  have hsame : (Library.distinct (as.map Atomic.typed)).map Item.ofAtomic =
      (Library.distinct as).map .ofAtomic := by
    rw [Library.distinct_map_typed, List.map_map]
    exact List.map_congr_left fun a _ => Item.ofAtomic_typed a
  refine (valueIn_call rfl hf rfl hdepth hes rfl :).trans ?_
  change (do return .ofList ((Library.distinct (← x.atomize c.forest)).map .ofAtomic)) >>= Item.toResult = _
  rw [has, hsame]
  exact (hvalue _).toResult

/-- Of the values of an expression, where an untyped text is a string, `distinct-values` keeps some in
their order, such that none is the same as one that is kept before it, and such that every value is kept
or is the same as one that is kept of those before it. At most one of them is a double that is not a
number. These are the values of the result, and applied to it `distinct-values` keeps all of them. -/
theorem distinctValues_keeps_representatives (hdepth : c.depth < c.limits.depth)
    (he : valueIn .library c e = .ok x) (has : x.atomize c.forest = .ok as) :
    let values := as.map Atomic.typed
    let kept := Library.distinct values
    let result := Item.ofList (kept.map .ofAtomic)
    valueIn .library c (distinctValues e) = .ok result ∧
    result.atomize c.forest = .ok kept ∧
    kept.Sublist values ∧
    kept.Pairwise (fun earlier later => earlier.same later = false) ∧
    (∀ before a after, values = before ++ a :: after →
      ∃ earlier later, kept = earlier ++ later ∧ earlier.Sublist before ∧
        ((∃ s ∈ earlier, s.same a = true) ∨ later.head? = some a)) ∧
    (kept.filter Atomic.isNotANumber).length ≤ 1 ∧
    valueIn .library c (distinctValues (distinctValues e)) = .ok result := by
  intro values kept result
  have htyped : kept.map Atomic.typed = kept := by
    change (Library.distinct values).map Atomic.typed = Library.distinct values
    rw [← Library.distinct_map_typed, List.map_map]
    exact congrArg Library.distinct (List.map_congr_left fun a _ => a.typed_typed)
  have hresult := valueIn_distinctValues hdepth he has
  have hatomize : result.atomize c.forest = .ok kept :=
    (Item.atomize_ofAtomics kept).trans (congrArg Except.ok htyped)
  refine ⟨hresult, hatomize, Library.sublist_distinct values, Library.pairwise_distinct values, ?_,
    Library.length_filter_isNotANumber values, ?_⟩
  · intro before a after hvalues
    have hsplit := Library.kept_or_same before a after
    rwa [← hvalues] at hsplit
  · rw [valueIn_distinctValues hdepth hresult hatomize, htyped,
      Library.distinct_of_pairwise (Library.pairwise_distinct values)]

/-- The second of two integers is kept, although both are the same as the double between them, which is
not kept itself. -/
theorem distinctValues_keeps_representatives_rounded :
    let e : Expr := .sequence [.literal (.integer 9007199254740993),
      .literal (.double 9007199254740992), .literal (.integer 9007199254740992),
      .literal (.double notANumber), .literal (.double notANumber)]
    let as : List Atomic := [.integer 9007199254740993, .double 9007199254740992,
      .integer 9007199254740992, .double notANumber, .double notANumber]
    let result : Item := .sequence [.integer 9007199254740993, .integer 9007199254740992,
      .double notANumber]
    ({} : Context).depth < ({} : Context).limits.depth ∧
      valueIn .library {} e = .ok (.sequence (as.map .ofAtomic)) ∧
      (Item.sequence (as.map .ofAtomic)).atomize ({} : Context).forest = .ok as ∧
      valueIn .library {} (distinctValues e) = .ok result ∧
      valueIn .library {} (distinctValues (distinctValues e)) = .ok result := by
  intro e as result
  have hdepth : ({} : Context).depth < ({} : Context).limits.depth := by decide
  have he : valueIn .library {} e = .ok (.sequence (as.map .ofAtomic)) := rfl
  have has : (Item.sequence (as.map .ofAtomic)).atomize ({} : Context).forest = .ok as := rfl
  have hkept : Library.distinct (as.map Atomic.typed) =
      [.integer 9007199254740993, .integer 9007199254740992, .double notANumber] := rfl
  obtain ⟨hfirst, -, -, -, -, -, hagain⟩ := distinctValues_keeps_representatives hdepth he has
  rw [hkept] at hfirst hagain
  exact ⟨hdepth, he, has, hfirst, hagain⟩

end Eval

end TreeQuery
