import Mathlib.Data.Rat.Floor
import Mathlib.Tactic.FieldSimp
import Mathlib.Tactic.Linarith
import Mathlib.Tactic.Positivity
import Mathlib.Tactic.Ring
import TreeQuery.Number.Decimal

/-!
# The numbers that decimals denote

Every decimal denotes a rational number. What `floor` and `truncate` make of a decimal denotes the floor
of that number, and the number without its fraction.
-/

namespace TreeQuery

theorem cast_tenTo_pos (n : ℕ) : (0 : ℚ) < tenTo n := Nat.cast_pos.mpr (tenTo_pos n)

/-! ### Numbers without their fractions -/

/-- A number without its fraction. -/
def trunc (x : ℚ) : ℤ := if 0 ≤ x then ⌊x⌋ else ⌈x⌉

/-- Without its fraction a number that is not negative is its floor. -/
theorem trunc_of_nonneg {x : ℚ} (h : 0 ≤ x) : trunc x = ⌊x⌋ := if_pos h

private theorem trunc_of_nonpos {x : ℚ} (h : x ≤ 0) : trunc x = ⌈x⌉ := by
  rcases h.lt_or_eq with hlt | rfl
  · exact if_neg hlt.not_ge
  · simp [trunc]

/-- The sign makes no difference to the fraction. -/
theorem trunc_neg (x : ℚ) : trunc (-x) = -trunc x := by
  rcases le_total 0 x with h | h
  · rw [trunc_of_nonneg h, trunc_of_nonpos (neg_nonpos.mpr h), Int.ceil_neg]
  · rw [trunc_of_nonpos h, trunc_of_nonneg (neg_nonneg.mpr h), Int.floor_neg]

/-- A whole number is what is left of `x` if it differs from it by less than one, and lies on the side
of zero. -/
theorem trunc_eq {x : ℚ} {q : ℤ} (hnear : |x - q| < 1) (hside : 0 ≤ (x - q) * x) : trunc x = q := by
  obtain ⟨hlow, hhigh⟩ := abs_lt.mp hnear
  rcases lt_trichotomy x 0 with hneg | rfl | hpos
  · have hle : x - q ≤ 0 := nonpos_of_mul_nonneg_left hside hneg
    rw [trunc_of_nonpos hneg.le, Int.ceil_eq_iff]
    constructor <;> linarith
  · have hzero : |q| < 1 := by
      rw [zero_sub, abs_neg] at hnear
      exact_mod_cast hnear
    rw [Int.abs_lt_one_iff.mp hzero]
    simp [trunc]
  · have hle : 0 ≤ x - q := nonneg_of_mul_nonneg_left hside hpos
    rw [trunc_of_nonneg hpos.le, Int.floor_eq_iff]
    constructor <;> linarith

/-- A quotient without its fraction is known by the remainder, which is less than the divisor and has
the sign of the dividend. -/
theorem trunc_div_eq {a b r : ℚ} {q : ℤ} (h : a = q * b + r) (hlt : |r| < |b|) (hside : 0 ≤ r * a) :
    trunc (a / b) = q := by
  have hb : b ≠ 0 := abs_pos.mp ((abs_nonneg r).trans_lt hlt)
  have hfraction : a / b - q = r / b := by
    rw [h, add_div, mul_div_cancel_right₀ _ hb, add_sub_cancel_left]
  refine trunc_eq ?_ ?_
  · rw [hfraction, abs_div, div_lt_one (abs_pos.mpr hb)]
    exact hlt
  · rw [hfraction, div_mul_div_comm]
    exact div_nonneg hside (mul_self_nonneg b)

/-- A remainder is smaller than the divisor. -/
theorem abs_tmod_lt (i : ℤ) {j : ℤ} (hj : j ≠ 0) : |i.tmod j| < |j| := by
  rw [Int.abs_eq_natAbs, Int.abs_eq_natAbs, Int.natAbs_tmod]
  exact_mod_cast Nat.mod_lt _ (Int.natAbs_pos.mpr hj)

/-- A remainder has the sign of the dividend. -/
theorem tmod_mul_nonneg (i j : ℤ) : 0 ≤ i.tmod j * i := by
  rcases le_total 0 i with h | h
  · exact mul_nonneg (Int.tmod_nonneg j h) h
  · have hneg : 0 ≤ (-i).tmod j := Int.tmod_nonneg j (neg_nonneg.mpr h)
    rw [Int.neg_tmod] at hneg
    exact mul_nonneg_of_nonpos_of_nonpos (neg_nonneg.mp hneg) h

/-- A quotient of integers without its fraction is that of the integer division. -/
theorem trunc_div (i : ℤ) {j : ℤ} (hj : j ≠ 0) : trunc (i / j : ℚ) = i.tdiv j := by
  refine trunc_div_eq (r := i.tmod j) ?_ ?_ ?_
  · exact_mod_cast (Int.tdiv_mul_add_tmod i j).symm
  · exact_mod_cast abs_tmod_lt i hj
  · exact_mod_cast tmod_mul_nonneg i j

theorem trunc_intCast (n : ℤ) : trunc n = n := by
  simp [trunc]

/-- What fits is the integer with that value. -/
theorem Integer.fit?_eq_some_iff {n : ℤ} {i : Int64} : fit? n = some i ↔ n = i.toInt :=
  ⟨fun h => (toInt_of_fit? h).symm, fun h => h ▸ fit?_toInt i⟩

namespace Decimal

/-! ### Values -/

/-- A number with or without a minus sign. -/
def signedBy (negative : Bool) (n : ℕ) : ℤ := if negative then -n else n

/-- A sign does not change how large a number is. -/
theorem abs_signedBy (negative : Bool) (n : ℕ) : |(signedBy negative n : ℚ)| = n := by
  cases negative <;> simp [signedBy]

/-- A number is what its sign makes of its absolute value. -/
theorem signedBy_natAbs (n : ℤ) : signedBy (decide (n < 0)) n.natAbs = n := by
  simp only [signedBy, decide_eq_true_eq]
  omega

/-- A number other than zero has one sign and one size. -/
theorem signedBy_inj {s t : Bool} {m n : ℕ} (hm : 0 < m) (h : signedBy s m = signedBy t n) :
    s = t ∧ m = n := by
  cases s <;> cases t <;> simp [signedBy] at h ⊢ <;> omega

/-- The sign of a product can be given to its first factor. -/
theorem signedBy_mul (negative : Bool) (m n : ℕ) :
    signedBy negative (m * n) = signedBy negative m * n := by
  cases negative <;> simp [signedBy]

/-- A fraction is a whole number if nothing is left when it is divided. -/
theorem exists_eq_signedBy_div_iff (negative : Bool) (num : ℕ) {den : ℕ} (hden : 0 < den) :
    (∃ n : ℤ, (signedBy negative num / den : ℚ) = n) ↔ num % den = 0 := by
  have hne : (den : ℚ) ≠ 0 := Nat.cast_ne_zero.mpr hden.ne'
  constructor
  · rintro ⟨n, hn⟩
    have hsigned : signedBy negative num = n * den := by exact_mod_cast (div_eq_iff hne).mp hn
    have habs : num = n.natAbs * den := by
      have habs := congrArg Int.natAbs hsigned
      rw [Int.natAbs_mul, Int.natAbs_natCast] at habs
      rw [← habs]
      cases negative <;> simp [signedBy]
    rw [habs, Nat.mul_mod_left]
  · intro hmod
    have hnum : signedBy negative num = signedBy negative (num / den) * den := by
      rw [← signedBy_mul, Nat.div_mul_cancel (Nat.dvd_of_mod_eq_zero hmod)]
    exact ⟨signedBy negative (num / den), (div_eq_iff hne).mpr (by exact_mod_cast hnum)⟩

/-- The quotient of a fraction is what it is without its own fraction. -/
theorem trunc_signedBy_div (negative : Bool) (num : ℕ) {den : ℕ} (hden : 0 < den) :
    trunc (signedBy negative num / den) = signedBy negative (num / den) := by
  have hdiv : signedBy negative (num / den) = (signedBy negative num).tdiv den := by
    cases negative <;> simp [signedBy, Int.neg_tdiv]
  rw [hdiv, ← trunc_div _ (Int.natCast_ne_zero.mpr hden.ne'), Int.cast_natCast]

/-- The number that a decimal denotes. -/
def value (d : Decimal) : ℚ := d.signed / tenTo d.scale

/-- The mantissa is the absolute value of the number that it denotes with the sign. -/
theorem natAbs_signed (d : Decimal) : d.signed.natAbs = d.mantissa := by
  rw [signed]
  split <;> simp

/-- The size of the number that a decimal denotes. -/
theorem abs_value (d : Decimal) : |d.value| = d.mantissa / tenTo d.scale := by
  rw [value, abs_div, abs_of_pos (cast_tenTo_pos _), ← Int.cast_abs, ← Nat.cast_natAbs, natAbs_signed]

/-- A decimal denotes zero if its mantissa is zero, and only then. -/
theorem value_eq_zero {d : Decimal} : d.value = 0 ↔ d.isZero = true := by
  rw [← abs_eq_zero, abs_value, div_eq_zero_iff, or_iff_left (cast_tenTo_pos _).ne', Nat.cast_eq_zero,
    isZero, beq_iff_eq]

theorem mantissa_pos {d : Decimal} (h : d.isZero = false) : 0 < d.mantissa :=
  Nat.pos_of_ne_zero (beq_eq_false_iff_ne.mp h)

theorem value_zero : zero.value = 0 := value_eq_zero.mpr rfl

/-- Without places a decimal denotes its mantissa, with the sign. -/
theorem value_of_scale_eq_zero {d : Decimal} (h : d.scale = 0) : d.value = d.signed := by
  simp [value, h]

/-- The other sign denotes the opposite number. -/
theorem value_neg (d : Decimal) : d.neg.value = -d.value := by
  cases h : d.negative <;> simp [value, signed, neg, h, neg_div]

/-- No decimal denotes a number greater than the greatest mantissa. -/
theorem abs_value_le (d : Decimal) : |d.value| ≤ twoTo 96 - 1 := by
  have hmantissa : (d.mantissa : ℚ) ≤ twoTo 96 - 1 := by
    rw [le_sub_iff_add_le]
    exact_mod_cast d.mantissa_lt
  have hplaces : (1 : ℚ) ≤ tenTo d.scale := by exact_mod_cast tenTo_pos d.scale
  rw [abs_value]
  exact (div_le_self (by positivity) hplaces).trans hmantissa

/-- A value may be written with more places. -/
theorem value_eq_div {d : Decimal} {scale : ℕ} (h : d.scale ≤ scale) :
    d.value = (d.signed * tenTo (scale - d.scale) : ℤ) / tenTo scale := by
  have hne := (cast_tenTo_pos d.scale).ne'
  have hne' := (cast_tenTo_pos (scale - d.scale)).ne'
  rw [← Nat.add_sub_cancel' h, tenTo_add, Nat.add_sub_cancel_left, value]
  push_cast
  field_simp

/-- The mantissa of a decimal that is written with so many places. -/
def digitsAt (d : Decimal) (scale : ℕ) : ℕ := d.mantissa * tenTo (scale - d.scale)

private theorem signed_mul (d : Decimal) (n : ℕ) : d.signed * n = signedBy d.negative (d.mantissa * n) :=
  (signedBy_mul d.negative d.mantissa n).symm

/-- A decimal denotes the same number with more places. -/
theorem value_eq_digitsAt {d : Decimal} {scale : ℕ} (h : d.scale ≤ scale) :
    d.value = signedBy d.negative (d.digitsAt scale) / tenTo scale := by
  rw [value_eq_div h, signed_mul, digitsAt]

/-- A decimal has the parts that it is made of. -/
theorem ofParts?_eq_some {negative : Bool} {m scale : ℕ} {r : Decimal}
    (h : ofParts? (negative && m != 0) m scale = some r) :
    r.signed = signedBy negative m ∧ r.mantissa = m ∧ r.scale = scale := by
  simp only [ofParts?, Option.dite_none_right_eq_some, Option.some.injEq] at h
  obtain ⟨-, rfl⟩ := h
  refine ⟨?_, rfl, rfl⟩
  cases negative with
  | true => by_cases hm : m = 0 <;> simp [signed, signedBy, hm]
  | false => simp [signed, signedBy]

/-- Parts make no decimal only if the mantissa has no room. -/
theorem ofParts?_eq_none_iff {negative : Bool} {m scale : ℕ} (hscale : scale ≤ 28) :
    ofParts? negative m scale = none ↔ twoTo 96 ≤ m := by
  simp [ofParts?, hscale]

/-! ### Whole numbers -/

/-- A decimal loses its fraction as the number that it denotes does. -/
theorem signed_truncate (d : Decimal) : d.truncate.signed = trunc d.value :=
  (trunc_signedBy_div d.negative d.mantissa (tenTo_pos d.scale)).symm

/-- Whether a decimal is whole is told by the number that it denotes. -/
theorem isWhole_iff {d : Decimal} : d.isWhole = true ↔ ∃ n : ℤ, d.value = n := by
  rw [isWhole, beq_iff_eq]
  exact (exists_eq_signedBy_div_iff d.negative d.mantissa (tenTo_pos d.scale)).symm

/-- A number below zero that is not whole is moved away from zero. -/
theorem signed_floor (d : Decimal) : d.floor.signed = d.signed / (tenTo d.scale : ℤ) := by
  unfold floor
  split
  · next hscale => rw [hscale, tenTo_zero, Nat.cast_one, Int.ediv_one]
  · cases hnegative : d.negative with
    | true =>
      have hdvd : (tenTo d.scale : ℤ) ∣ d.mantissa ↔ d.isWhole = true := by
        rw [Int.natCast_dvd_natCast, Nat.dvd_iff_mod_eq_zero, isWhole, beq_iff_eq]
      have hsign : (tenTo d.scale : ℤ).sign = 1 :=
        Int.sign_eq_one_of_pos (Int.natCast_pos.mpr (tenTo_pos _))
      have hsigned : d.signed = -(d.mantissa : ℤ) := by simp [signed, hnegative]
      rw [hsigned, Int.neg_ediv, hsign]
      cases hwhole : d.isWhole with
      | true => simp [hdvd, hwhole, signed, truncate, whole, hnegative]
      | false =>
        have hfraction : ¬ (tenTo d.scale : ℤ) ∣ d.mantissa := by simp [hdvd, hwhole]
        have haway : -((d.whole : ℤ) + 1) = -(d.mantissa / tenTo d.scale : ℤ) - 1 := by
          rw [whole, Int.natCast_div, neg_add']
        rw [if_neg hfraction, ← haway]
        simp [signed, truncateAway, hnegative]
    | false => simp [signed, truncate, whole, hnegative]

/-- A floor has no places. -/
theorem scale_floor (d : Decimal) : d.floor.scale = 0 := by
  unfold floor
  split
  · next hscale => exact hscale
  · split <;> rfl

/-- The floor of a decimal denotes the floor of its number. -/
theorem value_floor (d : Decimal) : d.floor.value = ⌊d.value⌋ := by
  rw [value_of_scale_eq_zero d.scale_floor, signed_floor, value, Rat.floor_intCast_div_natCast]

end Decimal

end TreeQuery
