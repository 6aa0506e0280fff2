import TreeQuery.Number.Numeric

/-!
# The order of numbers

The order of two numbers in one direction says what it is in the other: less becomes greater, and what
has no order in one direction has none in the other. For doubles this is read off their signs, exponents
and mantissas; a double that is not a number has no order with any other.
-/

namespace TreeQuery

/-! ### Doubles -/

open Float.Model (UnpackedFloat)

private theorem compare_unpacked_swap (x y : UnpackedFloat) : y.compare x =
    (x.compare y).map Ordering.swap := by
  cases x with
  | notANumber => cases y <;> rfl
  | infinity s =>
    cases y with
    | infinity t => cases s <;> cases t <;> rfl
    | _ => cases s <;> rfl
  | zero s =>
    cases y with
    | infinity t | finite t => cases t <;> rfl
    | _ => rfl
  | finite s m e =>
    cases y with
    | infinity t => cases t <;> rfl
    | zero t | notANumber => cases s <;> rfl
    | finite t m' e' =>
      have hswap : (compare e' e).then (compare m' m) = ((compare e e').then (compare m m')).swap := by
        rw [Ordering.swap_then, ← Std.OrientedCmp.eq_swap, ← Std.OrientedCmp.eq_swap]
      cases s with
      | negative =>
        cases t with
        | negative => exact congrArg (fun o => some (Ordering.swap o)) hswap
        | positive => rfl
      | positive =>
        cases t with
        | negative => rfl
        | positive => exact congrArg some hswap

/-- Asking for less, equal and greater in turn finds the order of two doubles. -/
theorem compareDoubles_eq (x y : Float) :
    compareDoubles x y = x.toModel.unpack.compare y.toModel.unpack := by
  have hlt (x y : Float) : x < y ↔ x.toModel.unpack.compare y.toModel.unpack = some .lt := by
    change decide (x.toModel.unpack.lt y.toModel.unpack = true) = true ↔ _
    rw [decide_eq_true_iff]
    exact beq_iff_eq
  have heq : (x == y) = true ↔ x.toModel.unpack.compare y.toModel.unpack = some .eq := by
    change (x.toModel.unpack.compare y.toModel.unpack == some .eq) = true ↔ _
    exact beq_iff_eq
  rw [compareDoubles]
  simp only [hlt, heq, compare_unpacked_swap x.toModel.unpack y.toModel.unpack]
  cases x.toModel.unpack.compare y.toModel.unpack with
  | none => rfl
  | some o => cases o <;> rfl

private theorem compareDoubles_swap (x y : Float) :
    compareDoubles y x = (compareDoubles x y).map Ordering.swap := by
  rw [compareDoubles_eq, compareDoubles_eq, compare_unpacked_swap]

/-- What is not a number has no order. -/
theorem compareDoubles_of_isNaN {x : Float} (h : x.isNaN = true) (y : Float) :
    compareDoubles x y = none := by
  have hx : x.toModel.unpack = .notANumber := by
    change x.toModel.unpack.isNaN = true at h
    cases hunpack : x.toModel.unpack with
    | notANumber => rfl
    | _ => rw [hunpack] at h; contradiction
  rw [compareDoubles_eq, hx]
  rfl

/-! ### Numbers of all types -/

private theorem Decimal.compare_swap (d e : Decimal) : e.compare d = (d.compare e).swap := by
  rw [Decimal.compare, Decimal.compare, ← Std.OrientedCmp.eq_swap]

/-- Which two numbers are compared does not depend on the side of the one that gives way. -/
theorem Numeric.compare_swap (x y : Numeric) : y.compare x = (x.compare y).map Ordering.swap := by
  cases x with
  | integer i =>
    cases y with
    | integer j => exact congrArg some Std.OrientedCmp.eq_swap
    | decimal e => exact congrArg some (Decimal.compare_swap _ _)
    | double y => exact compareDoubles_swap _ _
  | decimal d =>
    cases y with
    | integer j => exact congrArg some (Decimal.compare_swap _ _)
    | decimal e => exact congrArg some (Decimal.compare_swap _ _)
    | double y => exact compareDoubles_swap _ _
  | double x => cases y <;> exact compareDoubles_swap _ _

end TreeQuery
