import TreeQuery.Proofs.Evaluation.Values
import TreeQuery.Proofs.Number.Round
import TreeQuery.Session

/-!
# `round` in an expression

`round` leaves integers as they are and rounds the halves of decimals upwards. Nothing checks the sum of a
decimal and one half, so the program stops at the one decimal where that sum has no place. This is the only
way in which a call of `round` stops it.
-/

namespace TreeQuery.Eval

/-- `round(e)` -/
def rounded (e : Expr) : Expr := .call (.simple "round") [.value e]

/-- An expression for a number: it evaluates to one, or to what is read as one. -/
def HasNumber (c : Context) (e : Expr) (n : Numeric) : Prop :=
  ∃ value, valueIn .library c e = .ok value ∧ value.numberArgument c.forest "round" = .ok (some n)

/-- What `round` makes of a number, by its type. -/
def rounding : Numeric → Except EvalError Item
  | .integer i => .ok (.integer i)
  | .decimal d => d.round.elim (.error .crash) fun r => .ok (.decimal r)
  | .double x => .ok (.double (roundHalfUp x))

variable {c : Context} {e : Expr}

private theorem valueIn_rounded {n : Numeric} (hdepth : c.depth < c.limits.depth)
    (he : HasNumber c e n) : valueIn .library c (rounded e) = rounding n := by
  obtain ⟨value, hvalue, hnumber⟩ := he
  have hf : Registry.library.resolve? (.simple "round") =
      some (Library.onNumber "round" some Decimal.round roundHalfUp) :=
    (Registry.resolve?_library_simple _).trans rfl
  refine (valueIn_call rfl hf rfl hdepth (.cons hvalue .nil) rfl).trans ?_
  dsimp only
  rw [hnumber]
  cases n with
  | integer i | double x => rfl
  | decimal d =>
    change (Library.unchecked d.round >>= fun r => pure (Item.decimal r)) >>= Item.toResult = _
    rw [rounding]
    cases d.round <;> rfl

/-- An integer is rounded already. -/
theorem valueIn_rounded_integer {i : Int64} (hdepth : c.depth < c.limits.depth)
    (he : HasNumber c e (.integer i)) : valueIn .library c (rounded e) = .ok (.integer i) :=
  valueIn_rounded hdepth he

/-- The program stops at the greatest decimal, and at no other number. -/
theorem rounded_crashes_iff {n : Numeric} (hdepth : c.depth < c.limits.depth) (he : HasNumber c e n) :
    valueIn .library c (rounded e) = .error .crash ↔
      ∃ d, n = .decimal d ∧ d.value = twoTo 96 - 1 := by
  rw [valueIn_rounded hdepth he]
  cases n with
  | integer i | double x => simp [rounding]
  | decimal d =>
    simp only [Numeric.decimal.injEq, exists_eq_left', ← Decimal.round_eq_none_iff, rounding]
    cases d.round <;> simp

/-- Every other decimal is rounded to a whole number: to the floor of its sum with one half, or, if no
decimal denotes that sum, perhaps to the whole number above. -/
theorem valueIn_rounded_decimal {d : Decimal} (hdepth : c.depth < c.limits.depth)
    (he : HasNumber c e (.decimal d)) (hd : d.value ≠ twoTo 96 - 1) :
    ∃ r : Decimal, valueIn .library c (rounded e) = .ok (.decimal r) ∧ r.scale = 0 ∧
      (r.value = ⌊d.value + 1 / 2⌋ ∨
        ¬ Decimal.Denoted (d.value + 1 / 2) ∧ r.value = ⌈d.value + 1 / 2⌉) := by
  obtain ⟨r, hr⟩ := Option.ne_none_iff_exists'.mp (mt Decimal.round_eq_none_iff.mp hd)
  exact ⟨r, by rw [valueIn_rounded hdepth he, rounding, hr]; rfl, Decimal.value_round hr⟩

/-- The line that rounds the greatest decimal is the last one that its session takes. Without it the line
behind it is answered. -/
example :
    let s : Session := ⟨.library, {}⟩
    s.replies ["round(79228162514264337593543950335)", "1"] = [.crash] ∧
      s.replies ["1"] = [.text "1"] := by
  decide +kernel

end TreeQuery.Eval
