import TreeQuery.Proofs.Evaluation.Following

/-!
# Levels of calls under two settings of limits

An expression follows itself as soon as what is called one level deeper follows, wherever the limits
allow a call. By induction on the levels, evaluations with enough levels of calls follow each other:
how many levels there are does not matter, and neither does what happens when none is left.
-/

namespace TreeQuery

open Eval

/-- What is one level deeper follows what is there under the first setting of limits, and running
the functions of the registry in the way that is chosen keeps to that. -/
structure Deeper.Follows (w : Widening) (n : Nat) (wrap : Eval Item → Eval Item)
    (deeper₁ deeper₂ : Deeper) : Prop where
  /-- The bodies of functions follow. -/
  eval : ∀ e, Eval.Follows w n (deeper₁.eval e) (deeper₂.eval e)
  /-- The calls of values follow. -/
  call : ∀ f args, Eval.Follows w n (deeper₁.call f args) (deeper₂.call f args)
  /-- What follows an evaluation still does when it is run in the way that is chosen. -/
  wrapped : ∀ m₁ m₂, Eval.Follows w n m₁ m₂ → Eval.Follows w n m₁ (wrap m₂)

namespace Eval

variable {w : Widening} {n : Nat} {registry : Registry} {wrap : Eval Item → Eval Item}
  {deeper₁ deeper₂ : Deeper}

/-! ### One level of calls -/

section

variable (hr : registry.IgnoresLimits)
  (hd : n < w.tight.depth → deeper₁.Follows w (n + 1) wrap deeper₂)

include hr hd

private theorem related_deeper (k : Nat) (hk : k = n + 1 ∧ n < w.tight.depth) :
    Deeper.Related (fun _ => True) (FollowedBy w) registry (registry.wrapped wrap) k deeper₁
      deeper₂ := by
  obtain ⟨rfl, hn⟩ := hk
  have hdeeper := hd hn
  refine ⟨fun e => ⟨hdeeper.eval e, fun _ _ _ _ => trivial⟩,
    fun f args _ _ => ⟨hdeeper.call f args, fun _ _ _ _ => trivial⟩, fun hf hg _ => ⟨?_, fun _ _ _ _ => trivial⟩⟩
  rw [Registry.resolve?_wrapped, hf] at hg
  obtain rfl := Option.some.inj hg
  exact hdeeper.wrapped _ _ (hr _ (Registry.mem_of_resolve? hf) w _ _ _ hdeeper.call _)

/-- One level of calls: an expression follows itself if the calls in it do. -/
theorem follows_expr (e : Expr) :
    Follows w n (expr registry deeper₁ e) (expr (registry.wrapped wrap) deeper₂ e) :=
  ((congruence_follows w).expr (registry.sameSignatures_wrapped wrap) (related_deeper hr hd) e).1

/-- One level of calls: a call follows itself if the calls in it do. -/
theorem follows_callWithValues (f : Item) (args : List Item) :
    Follows w n (callWithValues registry deeper₁ f args)
      (callWithValues (registry.wrapped wrap) deeper₂ f args) :=
  ((congruence_follows w).callWithValues (registry.sameSignatures_wrapped wrap)
    (related_deeper hr hd) trivial fun _ _ => trivial).1

end

/-! ### Levels -/

/-- What is one level deeper when so many levels of calls are left. `out` answers where none is
left, and every evaluation is run in the way that is chosen. -/
def levels (registry : Registry) (wrap : Eval Item → Eval Item) (out : Eval Item) : Nat → Deeper
  | 0 => ⟨fun _ => out, fun _ _ => out⟩
  | k + 1 =>
    let deeper := levels registry wrap out k
    ⟨fun e => wrap (expr (registry.wrapped wrap) deeper e),
      fun f args => wrap (callWithValues (registry.wrapped wrap) deeper f args)⟩

/-- The levels of an evaluation run everything as it is, and fail where none is left. -/
theorem levels_eq (registry : Registry) (k : Nat) :
    levels registry id limitReached k = ⟨exprAt registry k, callAt registry k⟩ := by
  induction k with
  | zero =>
    have heval : exprAt registry 0 = fun _ => limitReached := funext fun _ => by rw [exprAt]
    have hcall : callAt registry 0 = fun _ _ => limitReached :=
      funext fun _ => funext fun _ => by rw [callAt]
    rw [levels, heval, hcall]
  | succ k ih =>
    have heval : exprAt registry (k + 1) = expr registry ⟨exprAt registry k, callAt registry k⟩ :=
      funext fun _ => by rw [exprAt]
    have hcall : callAt registry (k + 1) =
        callWithValues registry ⟨exprAt registry k, callAt registry k⟩ :=
      funext fun _ => funext fun _ => by rw [callAt]
    rw [levels, ih, Registry.wrapped_id, heval, hcall]
    rfl

/-- Enough levels of calls follow enough levels, by induction on the levels: going one level deeper
takes a call that the limits allow, and then one less is needed. So no evaluation gets to where no
level is left, and none is run where calls are nested deeper than `bound`. -/
theorem follows_levels {bound : Nat} (hr : registry.IgnoresLimits) (hbound : w.tight.depth ≤ bound)
    (hwrap : ∀ n ≤ bound, ∀ m₁ m₂, Follows w n m₁ m₂ → Follows w n m₁ (wrap m₂))
    (out₁ out₂ : Eval Item) {k₁ k₂ : Nat} (hn : n ≤ bound) (h₁ : w.tight.depth - n < k₁)
    (h₂ : w.tight.depth - n < k₂) :
    (levels registry id out₁ k₁).Follows w n wrap (levels registry wrap out₂ k₂) := by
  induction k₁ generalizing n k₂ with
  | zero => exact absurd h₁ (Nat.not_lt_zero _)
  | succ k₁ ih =>
    obtain ⟨k₂, rfl⟩ : ∃ k, k₂ = k + 1 := ⟨k₂ - 1, by omega⟩
    have hd (h : n < w.tight.depth) :
        (levels registry id out₁ k₁).Follows w (n + 1) wrap (levels registry wrap out₂ k₂) :=
      ih (by omega) (by omega) (by omega)
    refine ⟨fun e => hwrap n hn _ _ ?_, fun f args => hwrap n hn _ _ ?_, hwrap n hn⟩
    · simp only [levels, Registry.wrapped_id, id_eq]
      exact follows_expr hr hd e
    · simp only [levels, Registry.wrapped_id, id_eq]
      exact follows_callWithValues hr hd f args

end Eval

end TreeQuery
