import TreeQuery.Number.Decimal.Arithmetic
import TreeQuery.Proofs.Number.Value

/-!
# Remainders of decimals

A remainder is less than the divisor and has the sign of the dividend, and there always is one. It is
that of the division if the divisor is short, or no word of the quotient is lost on the way.
-/

namespace TreeQuery.Decimal

/-! ### Remainders of long numbers -/

/-- Word by word, a remainder is exact if no prefix of the dividend leaves a remainder with the same
leading word as the divisor. -/
theorem longRemainder_eq_mod {d n words : ℕ} (hn : n < twoTo (32 * words))
    (h : ∀ k < words, n / twoTo (32 * (k + 1)) % d / twoTo 64 < d / twoTo 64) :
    longRemainder d n words = n % d := by
  induction words generalizing n with
  | zero =>
    obtain rfl : n = 0 := Nat.lt_one_iff.mp hn
    exact (Nat.zero_mod d).symm
  | succ words ih =>
    have hsplit (k : ℕ) : n / twoTo 32 / twoTo (32 * k) = n / twoTo (32 * (k + 1)) := by
      rw [Nat.div_div_eq_div_mul, ← twoTo_add, Nat.mul_succ, Nat.add_comm]
    have hprefix : longRemainder d (n / twoTo 32) words = n / twoTo 32 % d := by
      refine ih (Nat.div_lt_of_lt_mul ?_) fun k hk => ?_
      · rwa [← twoTo_add, Nat.add_comm, ← Nat.mul_succ]
      · rw [hsplit]
        exact h (k + 1) (Nat.succ_lt_succ hk)
    have hleading := h 0 (Nat.succ_pos words)
    rw [longRemainder, hprefix, remainderStep_eq_mod _ hleading]
    conv_rhs => rw [← Nat.div_add_mod' n (twoTo 32)]
    rw [Nat.add_mod, Nat.mod_mul_mod, ← Nat.add_mod]

/-- Whether no word of the quotient of `m` by `d` is lost: the divisor is short, or shifted to three words
it never has the leading word of a remainder on the way. -/
def KeepsWords (m d : ℕ) : Prop :=
  d < twoTo 64 ∨ ∀ k < 7, m * twoTo (95 - d.log2) / twoTo (32 * (k + 1)) % (d * twoTo (95 - d.log2)) /
    twoTo 64 < d * twoTo (95 - d.log2) / twoTo 64

private theorem remainder_eq_mod {m d : ℕ} (hm : m < twoTo 96 * tenTo 28) (h : KeepsWords m d) :
    remainder m d = m % d := by
  simp only [remainder]
  split
  · rfl
  · next hlong =>
    have hshift : twoTo (95 - d.log2) ≤ twoTo 31 := by
      have hlog : 64 ≤ d.log2 := (Nat.le_log2 (by rintro rfl; exact hlong (twoTo_pos 64))).mpr
        (not_lt.mp hlong)
      exact Nat.pow_le_pow_right (by decide) (by omega)
    have hroom : m * twoTo (95 - d.log2) < twoTo (32 * 7) := by
      calc m * twoTo (95 - d.log2) ≤ twoTo 96 * tenTo 28 * twoTo 31 := Nat.mul_le_mul hm.le hshift
        _ < twoTo (32 * 7) := by decide
    rw [longRemainder_eq_mod hroom (h.resolve_left hlong), Nat.mul_mod_mul_right,
      Nat.mul_div_cancel _ (twoTo_pos _)]

/-! ### The remainder of a division -/

private theorem digitsAt_pos {b : Decimal} (hb : b.isZero = false) (scale : ℕ) : 0 < b.digitsAt scale :=
  Nat.mul_pos (mantissa_pos hb) (tenTo_pos _)

private theorem digitsAt_lt (d : Decimal) {scale : ℕ} (hscale : scale ≤ 28) :
    d.digitsAt scale < twoTo 96 * tenTo 28 :=
  Nat.mul_lt_mul_of_lt_of_le d.mantissa_lt (tenTo_le_tenTo ((Nat.sub_le _ _).trans hscale))
    (tenTo_pos _)

section Rem

variable {a b : Decimal} {scale : ℕ}

/-- The one of two decimals that has more places keeps its mantissa. -/
theorem min_digitsAt_lt (h : max a.scale b.scale = scale) :
    min (a.digitsAt scale) (b.digitsAt scale) < twoTo 96 := by
  have ha := a.mantissa_lt
  have hb := b.mantissa_lt
  simp only [digitsAt, ← h]
  rcases Nat.le_total a.scale b.scale with hle | hle
  · rw [max_eq_right hle, Nat.sub_self, tenTo_zero, Nat.mul_one]
    exact (min_le_right _ _).trans_lt hb
  · rw [max_eq_left hle, Nat.sub_self, tenTo_zero, Nat.mul_one]
    exact (min_le_left _ _).trans_lt ha

/-- There always is a remainder. Its digits are less than those of the divisor, and it has the sign of the
dividend. -/
theorem exists_rem (hb : b.isZero = false) (h : max a.scale b.scale = scale) :
    ∃ r n, a.rem b = some r ∧ r.value = signedBy a.negative n / tenTo scale ∧
      n < b.digitsAt scale ∧
      (KeepsWords (a.digitsAt scale) (b.digitsAt scale) →
        n = a.digitsAt scale % b.digitsAt scale) := by
  have hscale : scale ≤ 28 := h ▸ max_le a.scale_le b.scale_le
  have hvalue := value_eq_digitsAt (h ▸ le_max_left a.scale b.scale)
  have hmin := min_digitsAt_lt h
  have hlong := a.digitsAt_lt hscale
  have hpos := digitsAt_pos hb scale
  have hzero : zero.value = (signedBy a.negative 0 : ℚ) / tenTo scale := by
    simp [value_zero, signedBy]
  have hrem : a.rem b = if a.isZero then some zero
      else if a.digitsAt scale < b.digitsAt scale then some a
      else if a.digitsAt scale = b.digitsAt scale then some zero
      else ofParts?
        (a.negative && remainder (a.digitsAt scale) (b.digitsAt scale) != 0)
        (remainder (a.digitsAt scale) (b.digitsAt scale)) scale := by
    rw [← h]
    rfl
  generalize hm : a.digitsAt scale = m at *
  generalize b.digitsAt scale = d at *
  rw [hrem]
  split
  · next ha =>
    have hnone : m = 0 := by rw [← hm, digitsAt, beq_iff_eq.mp ha, Nat.zero_mul]
    exact ⟨zero, 0, rfl, hzero, hpos, fun _ => by rw [hnone, Nat.zero_mod]⟩
  split
  · next hlt => exact ⟨a, m, rfl, hvalue, hlt, fun _ => (Nat.mod_eq_of_lt hlt).symm⟩
  split
  · next heq => exact ⟨zero, 0, rfl, hzero, hpos, fun _ => by rw [heq, Nat.mod_self]⟩
  · have hlt := remainder_lt m hpos
    have hfits : remainder m d < twoTo 96 := by omega
    obtain ⟨r, hr⟩ := Option.ne_none_iff_exists'.mp
      (mt (ofParts?_eq_none_iff hscale).mp (not_le.mpr hfits))
    obtain ⟨hsigned, -, hplaces⟩ := ofParts?_eq_some hr
    exact ⟨r, remainder m d, hr, by rw [value, hsigned, hplaces], hlt, remainder_eq_mod hlong⟩

private theorem abs_signedBy_div (negative : Bool) (n scale : ℕ) :
    |(signedBy negative n / tenTo scale : ℚ)| = n / tenTo scale := by
  rw [abs_div, abs_signedBy, Nat.abs_cast]

/-- The remainder is less than the divisor, and is zero or has the sign of the dividend. -/
theorem rem_lt (hb : b.isZero = false) :
    ∃ r, a.rem b = some r ∧ |r.value| < |b.value| ∧ 0 ≤ r.value * a.value := by
  obtain ⟨r, n, hr, hvalue, hlt, -⟩ := exists_rem hb (a := a) rfl
  refine ⟨r, hr, ?_, ?_⟩
  · rw [hvalue, value_eq_digitsAt (le_max_right a.scale b.scale), abs_signedBy_div, abs_signedBy_div,
      div_lt_div_iff_of_pos_right (cast_tenTo_pos _)]
    exact_mod_cast hlt
  · rw [hvalue, value_eq_digitsAt (le_max_left a.scale b.scale), div_mul_div_comm]
    refine div_nonneg ?_ (mul_self_nonneg _)
    cases a.negative <;> simp only [signedBy] <;> push_cast <;> nlinarith

/-- If no word is lost, the remainder is what the quotient without its fraction leaves. -/
theorem rem_exact (hb : b.isZero = false) (h : max a.scale b.scale = scale)
    (hkeeps : KeepsWords (a.digitsAt scale) (b.digitsAt scale)) :
    ∃ r, a.rem b = some r ∧ a.value = trunc (a.value / b.value) * b.value + r.value := by
  obtain ⟨r, n, hr, hvalue, -, hmod⟩ := exists_rem hb h
  obtain ⟨r', hr', hlt, hside⟩ := rem_lt (a := a) hb
  obtain rfl : r = r' := Option.some.inj (hr.symm.trans hr')
  have hdivision : a.value = signedBy (a.negative != b.negative)
      (a.digitsAt scale / b.digitsAt scale) * b.value + r.value := by
    have hdigits : (a.digitsAt scale / b.digitsAt scale * b.digitsAt scale + n : ℕ) =
        a.digitsAt scale := by
      rw [hmod hkeeps, Nat.div_add_mod']
    rw [hvalue, value_eq_digitsAt (h ▸ le_max_left a.scale b.scale),
      value_eq_digitsAt (h ▸ le_max_right a.scale b.scale), ← mul_div_assoc, ← add_div]
    congr 1
    conv_lhs => rw [← hdigits]
    cases a.negative <;> cases b.negative <;> simp [signedBy] <;> ring
  exact ⟨r, hr, by rw [trunc_div_eq hdivision hlt hside]; exact hdivision⟩

/-- A remainder by a long divisor from which a word has been lost; the one that is left by the quotient is
`4294967295` in the same places. -/
example : Decimal.rem ⟨false, 4294967295, 0, by decide, by decide⟩
    ⟨false, 9999999999999999999999999999, 28, by decide, by decide⟩ =
    some ⟨false, 9232812099469197934124335104, 28, by decide, by decide⟩ := by
  decide +kernel

end Rem

end TreeQuery.Decimal
