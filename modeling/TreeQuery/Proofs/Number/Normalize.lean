import TreeQuery.Proofs.Number.Value

/-!
# The normal form of a decimal

Zeros at the end of a fraction do not count, and when they are dropped only one decimal is left for every
number other than zero. So two decimals have the same normal form if and only if they denote the same
number.
-/

namespace TreeQuery.Decimal

/-! ### Zeros at the end of a fraction -/

/-- The zeros that are dropped are put back by shifting the digits, and none is left. -/
theorem stripZeros_spec (m s : ℕ) :
    (stripZeros m s).1 * tenTo (s - (stripZeros m s).2) = m ∧
      ((stripZeros m s).2 = 0 ∨ (stripZeros m s).1 % 10 ≠ 0) := by
  induction s generalizing m with
  | zero => simp [stripZeros]
  | succ s ih =>
    simp only [stripZeros]
    split
    · next hzero =>
      obtain ⟨hdigits, hend⟩ := ih (m / 10)
      refine ⟨?_, hend⟩
      rw [Nat.succ_sub (stripZeros_le (m / 10) s).2, tenTo_succ, ← Nat.mul_assoc, hdigits]
      exact Nat.div_mul_cancel (Nat.dvd_of_mod_eq_zero hzero)
    · next hdigit => exact ⟨by simp, Or.inr hdigit⟩

/-- Without the zeros at its end a decimal denotes the same number. -/
theorem value_strip (d : Decimal) : d.strip.value = d.value := by
  have hdigits : d.strip.digitsAt d.scale = d.digitsAt d.scale := by
    rw [digitsAt, digitsAt, Nat.sub_self, tenTo_zero, Nat.mul_one]
    exact (stripZeros_spec d.mantissa d.scale).1
  rw [value_eq_digitsAt (stripZeros_le d.mantissa d.scale).2, hdigits, value_eq_digitsAt (le_refl d.scale)]
  rfl

/-- The normal form denotes the same number. -/
theorem value_normalize (d : Decimal) : d.normalize.value = d.value := by
  unfold normalize
  split
  · next hzero => rw [value_zero, value_eq_zero.mpr hzero]
  · exact d.value_strip

/-! ### Only one is left -/

/-- Whether no zero ends the fraction. -/
def IsStripped (d : Decimal) : Prop := d.scale = 0 ∨ d.mantissa % 10 ≠ 0

private theorem isStripped_strip (d : Decimal) : d.strip.IsStripped :=
  (stripZeros_spec d.mantissa d.scale).2

variable {d e : Decimal}

/-- No decimal of the same size has fewer places. -/
theorem IsStripped.scale_le (hd : d.IsStripped) (h : |d.value| = |e.value|) : d.scale ≤ e.scale := by
  by_contra hlt
  obtain ⟨k, hk⟩ : ∃ k, d.scale = e.scale + (k + 1) := ⟨d.scale - e.scale - 1, by omega⟩
  have hdigits : d.mantissa * tenTo e.scale = e.mantissa * tenTo d.scale := by
    rw [abs_value, abs_value, div_eq_div_iff (cast_tenTo_pos _).ne' (cast_tenTo_pos _).ne'] at h
    exact_mod_cast h
  have hmantissa : d.mantissa = e.mantissa * tenTo k * 10 := by
    refine Nat.eq_of_mul_eq_mul_right (tenTo_pos e.scale) ?_
    rw [hdigits, hk, tenTo_add, tenTo_succ]
    ring
  rcases hd with hscale | hdigit
  · omega
  · exact hdigit (by rw [hmantissa, Nat.mul_mod_left])

/-- A number other than zero has one decimal without zeros at the end of its fraction. -/
theorem IsStripped.eq_of_value_eq (hd : d.IsStripped) (he : e.IsStripped) (h : d.value = e.value)
    (hne : d.value ≠ 0) : d = e := by
  have habs : |d.value| = |e.value| := by rw [h]
  have hscale : d.scale = e.scale := le_antisymm (hd.scale_le habs) (he.scale_le habs.symm)
  have hsigned : signedBy d.negative d.mantissa = signedBy e.negative e.mantissa := by
    have hsigned := h
    rw [value, value, hscale, div_left_inj' (cast_tenTo_pos _).ne'] at hsigned
    exact_mod_cast hsigned
  have hpos : 0 < d.mantissa := mantissa_pos (Bool.eq_false_iff.mpr fun hz => hne (value_eq_zero.mpr hz))
  obtain ⟨hnegative, hmantissa⟩ := signedBy_inj hpos hsigned
  obtain ⟨negative, mantissa, scale, hm, hs⟩ := d
  obtain ⟨negative', mantissa', scale', hm', hs'⟩ := e
  obtain rfl : negative = negative' := hnegative
  obtain rfl : mantissa = mantissa' := hmantissa
  obtain rfl : scale = scale' := hscale
  rfl

/-- Decimals have the same normal form if they denote the same number, and only then. -/
theorem normalize_eq_iff : d.normalize = e.normalize ↔ d.value = e.value := by
  constructor
  · intro h
    rw [← value_normalize d, h, value_normalize]
  · intro h
    have hzero : d.isZero = e.isZero := by
      rw [Bool.eq_iff_iff, ← value_eq_zero, ← value_eq_zero, h]
    rw [normalize, normalize, hzero]
    split
    · rfl
    · next hne =>
      refine d.isStripped_strip.eq_of_value_eq e.isStripped_strip ?_ ?_
      · rw [value_strip, value_strip, h]
      · rw [value_strip, h]
        exact fun hvalue => hne (value_eq_zero.mp hvalue)

end TreeQuery.Decimal
