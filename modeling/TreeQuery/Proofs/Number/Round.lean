import TreeQuery.Number.Decimal.Arithmetic
import TreeQuery.Proofs.Number.Nearest

/-!
# Sums of decimals, and `round`

A sum is exact if a decimal denotes it. `round` adds one half and takes the floor. It gives the floor of
the exact sum if a decimal denotes that sum; where none does, the sum may have been rounded up to the next
whole number before its floor is taken.
-/

namespace TreeQuery.Decimal

/-! ### What decimals denote -/

private theorem denoted_of_natAbs_lt {n : ℤ} {scale : ℕ} (hscale : scale ≤ 28)
    (hn : n.natAbs < twoTo 96) :
    Denoted (n / tenTo scale) := by
  refine ⟨⟨decide (n < 0), n.natAbs, scale, hn, hscale⟩, ?_⟩
  change ((signedBy (decide (n < 0)) n.natAbs : ℤ) : ℚ) / tenTo scale = n / tenTo scale
  rw [signedBy_natAbs]

/-- A number that a decimal denotes is the digits of one with no more places than are in use. -/
theorem exists_digits_of_denoted {n : ℤ} {scale : ℕ} (h : Denoted (n / tenTo scale)) :
    ∃ places m, places ≤ scale ∧ m < twoTo 96 ∧ n.natAbs * tenTo places = m * tenTo scale := by
  obtain ⟨d, hd⟩ := h
  have hdigits : n.natAbs * tenTo d.scale = d.mantissa * tenTo scale := by
    have habs : |d.value| = |(n / tenTo scale : ℚ)| := by rw [hd]
    rw [abs_value, abs_div, abs_of_pos (cast_tenTo_pos scale), div_eq_div_iff
      (cast_tenTo_pos _).ne' (cast_tenTo_pos _).ne', ← Int.cast_abs, ← Nat.cast_natAbs] at habs
    exact_mod_cast habs.symm
  rcases Nat.le_total d.scale scale with hle | hle
  · exact ⟨d.scale, d.mantissa, hle, d.mantissa_lt, hdigits⟩
  · have hsmall : n.natAbs ≤ d.mantissa := by
      refine Nat.le_of_mul_le_mul_right (c := tenTo d.scale) ?_ (tenTo_pos _)
      exact hdigits ▸ Nat.mul_le_mul_left _ (tenTo_le_tenTo hle)
    exact ⟨scale, n.natAbs, le_refl _, hsmall.trans_lt d.mantissa_lt, rfl⟩

/-! ### Sums -/

section Add

variable {a b r : Decimal}

/-- A sum with zero is the other number, and every other sum is rounded once. -/
theorem add_cases (a b : Decimal) :
    (∃ r, a.add b = some r ∧ r.value = a.value + b.value) ∨
      ∃ (n : ℤ) (scale : ℕ), scale ≤ 28 ∧ (n / tenTo scale : ℚ) = a.value + b.value ∧
        a.add b = nearest? (decide (n < 0)) n.natAbs (tenTo scale) scale := by
  cases ha : a.isZero with
  | true => exact .inl ⟨b, by simp [add, ha], by rw [value_eq_zero.mpr ha, zero_add]⟩
  | false =>
    cases hb : b.isZero with
    | true => exact .inl ⟨a, by simp [add, ha, hb], by rw [value_eq_zero.mpr hb, add_zero]⟩
    | false =>
      refine .inr ⟨_, max a.scale b.scale, max_le a.scale_le b.scale_le, ?_,
        by simp only [add, ha, hb]; rfl⟩
      rw [value_eq_div (le_max_left a.scale b.scale), value_eq_div (le_max_right a.scale b.scale)]
      push_cast
      ring

/-- The sum is as near as its last place allows. -/
theorem nears_add (h : a.add b = some r) : r.Nears (a.value + b.value) := by
  rcases add_cases a b with ⟨c, hc, hvalue⟩ | ⟨n, scale, -, hsum, hadd⟩
  · obtain rfl : c = r := Option.some.inj (hc.symm.trans h)
    exact hvalue ▸ c.nears_value
  · have hnears := nears_nearest? (tenTo_pos scale) (hadd ▸ h)
    rwa [signedBy_natAbs, hsum] at hnears

/-- There is no sum only if it reaches `2 ^ 96` when it is rounded. -/
theorem add_eq_none_iff : a.add b = none ↔ (twoTo 96 - 1 / 2 : ℚ) ≤ |a.value + b.value| := by
  rcases add_cases a b with ⟨c, hc, hvalue⟩ | ⟨n, scale, hscale, hsum, hadd⟩
  · have hsize := c.abs_value_le
    rw [← hvalue, hc]
    exact iff_of_false (Option.some_ne_none c) (by linarith)
  · rw [hadd, nearest?_eq_none_iff (tenTo_pos scale) hscale, ← hsum, abs_div,
      abs_of_pos (cast_tenTo_pos scale), Nat.cast_natAbs, Int.cast_abs]

/-- A sum that a decimal denotes is exact. -/
theorem add_exact (h : Denoted (a.value + b.value)) :
    ∃ r, a.add b = some r ∧ r.value = a.value + b.value := by
  rcases add_cases a b with hexact | ⟨n, scale, hscale, hsum, hadd⟩
  · exact hexact
  · obtain ⟨places, m, hplaces, hm, hdigits⟩ := exists_digits_of_denoted (hsum ▸ h)
    obtain ⟨r, hr, hvalue⟩ := @nearest?_exact (decide (n < 0)) _ _ _ _ _ (tenTo_pos scale) hscale
      hplaces hm hdigits
    exact ⟨r, hadd.trans hr, by rw [hvalue, signedBy_natAbs, hsum]⟩

end Add

/-! ### Rounding halves upwards -/

/-- One half, as it is added before the floor is taken. -/
def half : Decimal := ⟨false, 5, 1, Nat.le_of_ble_eq_true rfl, Nat.le_of_ble_eq_true rfl⟩

private theorem value_half : half.value = 1 / 2 := by
  norm_num [value, signed, half, tenTo]

section Round

variable {d r : Decimal}

private theorem round_eq_some_iff : d.round = some r ↔ ∃ s, d.add half = some s ∧ s.floor = r :=
  Option.map_eq_some_iff

/-- If a decimal denotes the sum with one half, rounding gives the floor of that sum. -/
theorem round_exact (h : Denoted (d.value + 1 / 2)) :
    ∃ r, d.round = some r ∧ r.value = ⌊d.value + 1 / 2⌋ := by
  rw [← value_half] at h ⊢
  obtain ⟨s, hs, hvalue⟩ := add_exact h
  exact ⟨s.floor, round_eq_some_iff.mpr ⟨s, hs, rfl⟩, by rw [value_floor, hvalue]⟩

/-- Rounding gives a whole number, the floor of the sum with one half. Only if no decimal denotes that
sum, it may be the whole number above. -/
theorem value_round (h : d.round = some r) :
    r.scale = 0 ∧ (r.value = ⌊d.value + 1 / 2⌋ ∨
      ¬ Denoted (d.value + 1 / 2) ∧ r.value = ⌈d.value + 1 / 2⌉) := by
  obtain ⟨s, hs, rfl⟩ := round_eq_some_iff.mp h
  refine ⟨s.scale_floor, or_iff_not_imp_left.mpr fun hne => ⟨fun hdenoted => hne ?_, ?_⟩⟩
  · obtain ⟨r, hr, hvalue⟩ := round_exact hdenoted
    rw [h] at hr
    rw [Option.some.inj hr, hvalue]
  · rw [← value_half] at hne ⊢
    rcases (nears_add hs).floor_value with hfloor | ⟨-, hceil⟩
    · rw [value_floor, hfloor] at hne
      contradiction
    · rw [value_floor, hceil, Int.floor_intCast]

/-- A decimal of 29 digits is brought to the whole number above it, when the last of its digits gives way
to the half that is added. -/
example : Decimal.round ⟨false, 74999999999999999999999999999, 28, by decide, by decide⟩ =
    some ⟨false, 8, 0, by decide, by decide⟩ := by
  decide +kernel

/-- Only the greatest decimal cannot be rounded. -/
theorem round_eq_none_iff : d.round = none ↔ d.value = twoTo 96 - 1 := by
  have hround : d.round = none ↔ d.add half = none := Option.map_eq_none_iff
  have hsize := abs_le.mp d.abs_value_le
  have hlarge : (2 : ℚ) ≤ twoTo 96 := by exact_mod_cast (by decide : 2 ≤ twoTo 96)
  rw [hround, add_eq_none_iff, value_half, le_abs]
  constructor
  · rintro (habove | hbelow) <;> linarith
  · intro heq
    left
    linarith

/-- Decimals of at most 27 digits are rounded to the floor of the sum with one half. -/
theorem round_of_mantissa_lt (h : d.mantissa < tenTo 27) :
    ∃ r, d.round = some r ∧ r.value = ⌊d.value + 1 / 2⌋ := by
  have hscale := d.scale_le
  have hdigits : d.signed.natAbs * tenTo (max d.scale 1 - d.scale) ≤ tenTo 27 * tenTo 1 :=
    Nat.mul_le_mul (natAbs_signed d ▸ h.le) (tenTo_le_tenTo (by omega))
  have hhalf : 5 * tenTo (max d.scale 1 - 1) ≤ 5 * tenTo 27 :=
    Nat.mul_le_mul_left 5 (tenTo_le_tenTo (by omega))
  have hroom : tenTo 27 * tenTo 1 + 5 * tenTo 27 < twoTo 96 := by decide
  have hone : half.value = (half.signed * tenTo (max d.scale 1 - 1) : ℤ) / tenTo (max d.scale 1) :=
    value_eq_div (le_max_right d.scale half.scale)
  refine round_exact ?_
  rw [← value_half, hone, value_eq_div (le_max_left d.scale 1), ← add_div, ← Int.cast_add]
  refine denoted_of_natAbs_lt (by omega) ((Int.natAbs_add_le _ _).trans_lt ?_)
  rw [Int.natAbs_mul, Int.natAbs_mul, Int.natAbs_natCast, Int.natAbs_natCast]
  exact (Nat.add_le_add hdigits hhalf).trans_lt hroom

end Round

end TreeQuery.Decimal
