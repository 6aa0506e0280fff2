import Mathlib.Data.List.ProdSigma
import TreeQuery.Error
import TreeQuery.Operator

/-!
# Searches for an answer

A list is gone through until an answer settles the whole: the first yes if some answer must be yes, and
the first no if every one must be. An answer that fails ends the search too, and whatever stands behind
it is never asked. So a search for a yes fails exactly if a failure stands in front of every yes, and
otherwise it finds out whether there is a yes.
-/

namespace TreeQuery

/-! ### What a search reaches -/

/-- The elements up to the first one that ends a search, that one included. -/
def upTo {α : Type} (ends : α → Bool) : List α → List α
  | [] => []
  | a :: as => a :: if ends a then [] else upTo ends as

section

variable {α β : Type} {ends : α → Bool}

private theorem upTo_append (as bs : List α) :
    upTo ends (as ++ bs) = upTo ends as ++ if as.any ends then [] else upTo ends bs := by
  induction as with
  | nil => rfl
  | cons a as ih =>
    rw [List.cons_append, upTo, upTo, List.any_cons]
    cases h : ends a with
    | true => simp
    | false => simp [ih]

/-- What a search reaches is one of the elements. -/
theorem mem_of_mem_upTo {as : List α} {a : α} (h : a ∈ upTo ends as) : a ∈ as := by
  induction as with
  | nil => contradiction
  | cons b as ih =>
    rw [upTo] at h
    rcases List.mem_cons.mp h with rfl | h
    · exact List.mem_cons_self
    · cases hends : ends b with
      | true => simp [hends] at h
      | false =>
        rw [hends] at h
        exact List.mem_cons_of_mem _ (ih h)

/-- A search through parts reaches what a search through one of them reaches, if it reaches the part. -/
theorem mem_upTo_flatMap {f : β → List α} {bs : List β} {a : α} {b : β}
    (hb : b ∈ upTo (fun b => (f b).any ends) bs) (ha : a ∈ upTo ends (f b)) :
    a ∈ upTo ends (bs.flatMap f) := by
  induction bs with
  | nil => contradiction
  | cons b' bs ih =>
    rw [List.flatMap_cons, upTo_append, List.mem_append]
    rw [upTo] at hb
    rcases List.mem_cons.mp hb with rfl | hb
    · exact Or.inl ha
    · right
      cases hends : (f b').any ends with
      | true => simp [hends] at hb
      | false =>
        rw [hends] at hb
        exact ih hb

/-- All elements in front of one that a search reaches do not end it. -/
theorem eq_append_of_upTo {as before after : List α} {a : α} (h : upTo ends as = before ++ a :: after) :
    (∀ b ∈ before, ends b = false) ∧ ∃ rest, as = before ++ a :: rest := by
  induction before generalizing as with
  | nil =>
    cases as with
    | nil => contradiction
    | cons a' as =>
      rw [upTo] at h
      obtain ⟨rfl, -⟩ := List.cons.inj h
      exact ⟨nofun, as, rfl⟩
  | cons b before ih =>
    cases as with
    | nil => contradiction
    | cons a' as =>
      rw [upTo] at h
      obtain ⟨rfl, hrest⟩ := List.cons.inj h
      cases hends : ends a' with
      | true => simp [hends] at hrest
      | false =>
        rw [hends] at hrest
        obtain ⟨hbefore, rest, rfl⟩ := ih hrest
        exact ⟨List.forall_mem_cons.mpr ⟨hends, hbefore⟩, rest, rfl⟩

/-- Only the elements that a search reaches decide how far it goes. -/
theorem upTo_congr {ends' : α → Bool} {as : List α} (h : ∀ a ∈ upTo ends as, ends' a = ends a) :
    upTo ends' as = upTo ends as := by
  induction as with
  | nil => rfl
  | cons a as ih =>
    rw [upTo, List.forall_mem_cons] at h
    rw [upTo, upTo, h.1]
    cases hends : ends a with
    | true => rfl
    | false =>
      rw [hends] at h
      rw [ih h.2]

/-- Where the first elements do not end a search, it goes on to the next. -/
theorem upTo_append_cons {before after : List α} {a : α} (h : ∀ b ∈ before, ends b = false) :
    upTo ends (before ++ a :: after) = before ++ a :: if ends a then [] else upTo ends after := by
  have hany : before.any ends = false := by simpa using h
  rw [upTo_append, hany, upTo]
  have hbefore : upTo ends before = before := by
    clear hany
    induction before with
    | nil => rfl
    | cons b before ih =>
      rw [List.forall_mem_cons] at h
      rw [upTo, h.1, ih h.2]
      rfl
  rw [hbefore]
  rfl

end

/-! ### How a search ends -/

namespace Quantifier

variable {α β : Type} {q : Quantifier}

/-- The truth of a choice that leaves the whole open. -/
def neutral : Quantifier → Bool
  | .some => false
  | .every => true

/-- Asks for one element after another, as long as the answers leave the whole open. -/
def search {m : Type → Type} [Monad m] (q : Quantifier) (ask : α → m Bool) (as : List α) : m Bool :=
  match q with
  | .some => as.anyM ask
  | .every => as.allM ask

/-- Whether an answer ends the search. -/
def settles (q : Quantifier) : Except EvalError Bool → Bool
  | .ok b => b != q.neutral
  | .error _ => true

section

variable {m : Type → Type} [Monad m] {ask : α → m Bool}

theorem search_nil : q.search ask [] = pure q.neutral := by
  cases q <;> rfl

/-- A search goes on behind an answer that leaves the whole open. -/
theorem search_cons (a : α) (as : List α) :
    q.search ask (a :: as) = ask a >>= fun b => if b = q.neutral then q.search ask as else pure b := by
  cases q with
  | some =>
    rw [search, List.anyM_cons]
    refine congrArg _ (funext fun b => ?_)
    cases b <;> rfl
  | every =>
    rw [search, List.allM_cons]
    refine congrArg _ (funext fun b => ?_)
    cases b <;> rfl

private theorem search_append [LawfulMonad m] (as bs : List α) :
    q.search ask (as ++ bs) =
      q.search ask as >>= fun b => if b = q.neutral then q.search ask bs else pure b := by
  induction as with
  | nil => rw [List.nil_append, search_nil, pure_bind, if_pos rfl]
  | cons a as ih =>
    rw [List.cons_append, search_cons, search_cons, bind_assoc]
    refine congrArg _ (funext fun b => ?_)
    split
    · exact ih
    · next h => rw [pure_bind, if_neg h]

/-- A search of lists put together is a search of searches. -/
theorem search_flatMap [LawfulMonad m] (f : β → List α) (bs : List β) :
    q.search ask (bs.flatMap f) = q.search (fun b => q.search ask (f b)) bs := by
  induction bs with
  | nil => rw [List.flatMap_nil, search_nil, search_nil]
  | cons b bs ih => rw [List.flatMap_cons, search_append, search_cons, ih]

private theorem search_map (f : β → α) (bs : List β) :
    q.search ask (bs.map f) = q.search (fun b => ask (f b)) bs := by
  induction bs with
  | nil => rw [List.map_nil, search_nil, search_nil]
  | cons b bs ih => rw [List.map_cons, search_cons, search_cons, ih]

/-- Two searches inside each other are one through the pairs. -/
theorem search_product [LawfulMonad m] {ask : α × β → m Bool} (as : List α) (bs : List β) :
    q.search ask (as.product bs) = q.search (fun a => q.search (fun b => ask (a, b)) bs) as := by
  rw [List.product, search_flatMap]
  simp only [search_map]

/-- Some answer is yes unless every answer is no. -/
theorem every_search_not [LawfulMonad m] (as : List α) :
    every.search (fun a => Bool.not <$> ask a) as = Bool.not <$> some.search ask as := by
  induction as with
  | nil => simp [search_nil, neutral]
  | cons a as ih =>
    rw [search_cons, search_cons, ih, map_bind, bind_map_left]
    refine congrArg _ (funext fun b => ?_)
    cases b <;> simp [neutral]

end

variable {answer : α → Except EvalError Bool} {as : List α}

theorem settles_ok (b : Bool) : q.settles (.ok b) = (b != q.neutral) := rfl

/-- Only the answer that leaves the whole open does not end the search. -/
theorem settles_eq_false_iff {r : Except EvalError Bool} : q.settles r = false ↔ r = .ok q.neutral := by
  cases r with
  | error e => simp [settles]
  | ok b => simp [settles]

/-- A search settles the whole if an answer does. -/
theorem settles_search : q.settles (q.search answer as) = as.any fun a => q.settles (answer a) := by
  induction as with
  | nil => cases q <;> rfl
  | cons a as ih =>
    rw [search_cons, List.any_cons]
    cases h : answer a with
    | error e => rfl
    | ok b =>
      change q.settles (if b = q.neutral then q.search answer as else pure b) = _
      rw [settles_ok]
      split
      · next hb => rw [ih, hb, bne_self_eq_false, Bool.false_or]
      · next hb => rw [bne_iff_ne.mpr hb, Bool.true_or]; exact bne_iff_ne.mpr hb

/-- Only the answers that a search gets to decide what it finds. -/
theorem search_congr {answer' : α → Except EvalError Bool}
    (h : ∀ a ∈ upTo (fun a => q.settles (answer a)) as, answer' a = answer a) :
    q.search answer' as = q.search answer as := by
  induction as with
  | nil => rw [search_nil, search_nil]
  | cons a as ih =>
    rw [upTo, List.forall_mem_cons] at h
    rw [search_cons, search_cons, h.1]
    cases hanswer : answer a with
    | error e => rfl
    | ok b =>
      change (if b = q.neutral then q.search answer' as else pure b) =
        if b = q.neutral then q.search answer as else pure b
      split
      · next hb =>
        refine ih fun a' ha' => h.2 a' ?_
        rwa [hanswer, settles_ok, hb, bne_self_eq_false]
      · rfl

/-- The first answers that leave the whole open do not matter. -/
theorem search_append_of_open {before after : List α}
    (h : ∀ a ∈ before, answer a = .ok q.neutral) :
    q.search answer (before ++ after) = q.search answer after := by
  induction before with
  | nil => rfl
  | cons a before ih =>
    rw [List.forall_mem_cons] at h
    rw [List.cons_append, search_cons, h.1]
    change (if q.neutral = q.neutral then _ else _) = _
    rw [if_pos rfl, ih h.2]

/-! ### Searches for a yes -/

/-- An answer fails, and there is no yes in front of it. -/
def FailsFirst (answer : α → Except EvalError Bool) (as : List α) : Prop :=
  ∃ before a after, as = before ++ a :: after ∧ (∃ e, answer a = .error e) ∧
    ∀ b ∈ before, answer b ≠ .ok true

private theorem not_failsFirst_nil : ¬ FailsFirst answer [] := by
  rintro ⟨before, a, after, hsplit, -⟩
  exact List.append_ne_nil_of_right_ne_nil before (List.cons_ne_nil a after) hsplit.symm

/-- An answer fails first if it is the first one, or if that is no yes and another one fails first. -/
theorem failsFirst_cons {a : α} :
    FailsFirst answer (a :: as) ↔
      (∃ e, answer a = .error e) ∨ answer a ≠ .ok true ∧ FailsFirst answer as := by
  constructor
  · rintro ⟨before, b, after, hsplit, herror, hbefore⟩
    cases before with
    | nil =>
      obtain ⟨rfl, -⟩ := List.cons.inj hsplit
      exact Or.inl herror
    | cons a' before =>
      obtain ⟨rfl, rfl⟩ := List.cons.inj hsplit
      rw [List.forall_mem_cons] at hbefore
      exact Or.inr ⟨hbefore.1, before, b, after, rfl, herror, hbefore.2⟩
  · rintro (herror | ⟨hfirst, before, b, after, rfl, herror, hbefore⟩)
    · exact ⟨[], a, as, rfl, herror, nofun⟩
    · exact ⟨a :: before, b, after, rfl, herror, List.forall_mem_cons.mpr ⟨hfirst, hbefore⟩⟩

/-- Where no answer fails, none fails first. -/
theorem not_failsFirst (h : ∀ a ∈ as, ∃ b, answer a = .ok b) : ¬ FailsFirst answer as := by
  rintro ⟨before, a, after, rfl, ⟨e, he⟩, -⟩
  obtain ⟨b, hb⟩ := h a (by simp)
  rw [hb] at he
  contradiction

/-- A search for a yes fails exactly if a failure stands in front of every yes. -/
theorem some_search_eq_error_iff : (∃ e, some.search answer as = .error e) ↔ FailsFirst answer as := by
  induction as with
  | nil => exact iff_of_false (fun ⟨_, h⟩ => nomatch h) not_failsFirst_nil
  | cons a as ih =>
    rw [failsFirst_cons, search_cons]
    cases answer a with
    | error e => exact iff_of_true ⟨e, rfl⟩ (Or.inl ⟨e, rfl⟩)
    | ok b =>
      cases b with
      | true => simp [neutral, pure, Except.pure, bind, Except.bind]
      | false => simpa [neutral, bind, Except.bind] using ih

/-- Otherwise it finds out whether there is a yes. -/
theorem some_search_of_not_failsFirst (h : ¬ FailsFirst answer as) :
    ∃ b, some.search answer as = .ok b ∧ (b = true ↔ ∃ a ∈ as, answer a = .ok true) := by
  induction as with
  | nil => exact ⟨false, rfl, by simp⟩
  | cons a as ih =>
    rw [failsFirst_cons, not_or] at h
    rw [search_cons]
    cases hanswer : answer a with
    | error e => exact absurd ⟨e, hanswer⟩ h.1
    | ok b =>
      cases b with
      | true => exact ⟨true, rfl, iff_of_true rfl ⟨a, List.mem_cons_self, hanswer⟩⟩
      | false =>
        obtain ⟨b, hb, hyes⟩ := ih fun hfails => h.2 ⟨by simp [hanswer], hfails⟩
        refine ⟨b, hb, hyes.trans ?_⟩
        simp [hanswer]

end Quantifier

end TreeQuery
