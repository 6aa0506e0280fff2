import TreeQuery.Number.Binary
import TreeQuery.Proofs.Number.Value

/-!
# The numbers that doubles denote

Every finite double denotes a rational number. Its significand is as long as it can be, so the number
determines the parts of the double, and these its bits. Only zero has two doubles, one for each sign.
-/

namespace TreeQuery

private theorem cast_twoTo (n : ℕ) : (twoTo n : ℚ) = 2 ^ n := Nat.cast_pow 2 n

namespace Binary

open Decimal (signedBy signedBy_inj signedBy_mul abs_signedBy exists_eq_signedBy_div_iff
  trunc_signedBy_div)

/-! ### Values -/

/-- The number that a finite double denotes. -/
def value (b : Binary) : ℚ := signedBy b.negative b.significand * 2 ^ b.exponent

/-- The size of the number that a finite double denotes. -/
theorem abs_value (b : Binary) : |b.value| = b.significand * 2 ^ b.exponent := by
  rw [value, abs_mul, abs_signedBy, abs_of_pos (zpow_pos two_pos _)]

private theorem magnitude_pos (b : Binary) : 0 < b.magnitude.2 := by
  unfold magnitude
  split
  · exact Nat.one_pos
  · exact twoTo_pos _

/-- The value is the fraction that the double is taken apart into. -/
theorem value_eq_div (b : Binary) :
    b.value = signedBy b.negative b.magnitude.1 / b.magnitude.2 := by
  unfold magnitude
  split
  · next hexponent =>
    rw [signedBy_mul, value, ← Int.toNat_of_nonneg hexponent, zpow_natCast]
    push_cast
    rw [cast_twoTo, div_one, Int.toNat_natCast]
  · next hexponent =>
    have hpositive : b.exponent = -((-b.exponent).toNat : ℤ) := by omega
    rw [value, cast_twoTo, div_eq_mul_inv, ← zpow_natCast, ← zpow_neg, ← hpositive]

/-- Whether a double is whole is told by the number that it denotes. -/
theorem isWhole_iff {b : Binary} : b.isWhole = true ↔ ∃ n : ℤ, b.value = n := by
  rw [isWhole, beq_iff_eq, value_eq_div]
  exact (exists_eq_signedBy_div_iff b.negative b.magnitude.1 b.magnitude_pos).symm

/-- A double loses its fraction as the number that it denotes does. -/
theorem truncated_eq (b : Binary) : b.truncated = trunc b.value := by
  rw [value_eq_div]
  exact (trunc_signedBy_div b.negative b.magnitude.1 b.magnitude_pos).symm

/-! ### The parts of a double -/

/-- The parts that a double can have: a significand of 53 bits, the first of which is set unless the
exponent is the least one. -/
structure Canonical (b : Binary) : Prop where
  /-- The significand has 53 bits at most. -/
  significand_lt : b.significand < twoTo 53
  /-- No exponent is less than that of the doubles next to zero. -/
  exponent_ge : -1074 ≤ b.exponent
  /-- The significand is as long as it can be. -/
  leads : twoTo 52 ≤ b.significand ∨ b.exponent = -1074

/-- The bits of the double with these parts. The first bit of the significand is not stored, but counts as
one in the exponent field. -/
def bits (b : Binary) : ℕ :=
  (if b.negative then twoTo 63 else 0) + (b.exponent + 1074).toNat * twoTo 52 + b.significand

/-- What a double is taken apart into are canonical parts, and its bits are theirs. -/
theorem canonical_of_ofFloat? {x : Float} {b : Binary} (h : ofFloat? x = some b) :
    b.Canonical ∧ x.toBits.toNat = b.bits := by
  have hbits := x.toBits.toNat_lt
  have h11 : twoTo 11 = 2048 := rfl
  have h52 : twoTo 52 = 4503599627370496 := rfl
  have h53 : twoTo 53 = 9007199254740992 := rfl
  have h63 : twoTo 63 = 9223372036854775808 := rfl
  simp only [ofFloat?, exponentField, fractionField, h11, h52, h63] at h
  generalize x.toBits.toNat = n at h hbits
  split at h
  · contradiction
  split at h
  · next hfield =>
    obtain rfl := Option.some.inj h
    refine ⟨⟨?_, ?_, Or.inr rfl⟩, ?_⟩
    · simp only [h53]
      omega
    · simp
    · simp only [bits, decide_eq_true_eq, h52, h63]
      split <;> omega
  · next hfield =>
    obtain rfl := Option.some.inj h
    refine ⟨⟨?_, ?_, Or.inl ?_⟩, ?_⟩
    · simp only [h53]
      omega
    · simp only
      omega
    · simp only [h52]
      omega
    · simp only [bits, decide_eq_true_eq, h52, h63]
      split <;> omega

variable {b c : Binary}

/-- A double of the same size has no greater exponent: that of the first one would be the greater by a
whole bit. -/
theorem Canonical.exponent_le (hb : b.Canonical) (hc : c.Canonical) (h : |b.value| = |c.value|) :
    b.exponent ≤ c.exponent := by
  by_contra hlt
  have hexponent : c.exponent + 1 ≤ b.exponent := by omega
  have hleads : twoTo 52 ≤ b.significand := hb.leads.resolve_right fun heq => by
    have hge := hc.exponent_ge
    omega
  have hlarge : (twoTo 53 : ℚ) * 2 ^ c.exponent ≤ |b.value| := by
    calc (twoTo 53 : ℚ) * 2 ^ c.exponent = twoTo 52 * 2 ^ (c.exponent + 1) := by
          rw [twoTo_succ, Nat.cast_mul, zpow_add_one₀ two_ne_zero]
          push_cast
          ring
      _ ≤ twoTo 52 * 2 ^ b.exponent :=
          mul_le_mul_of_nonneg_left (zpow_le_zpow_right₀ one_le_two hexponent) (Nat.cast_nonneg _)
      _ ≤ b.significand * 2 ^ b.exponent :=
          mul_le_mul_of_nonneg_right (by exact_mod_cast hleads) (zpow_nonneg zero_le_two _)
      _ = |b.value| := b.abs_value.symm
  have hsmall : |c.value| < twoTo 53 * 2 ^ c.exponent := by
    rw [abs_value]
    exact mul_lt_mul_of_pos_right (by exact_mod_cast hc.significand_lt) (zpow_pos two_pos _)
  exact absurd (hlarge.trans_lt (h ▸ hsmall)) (lt_irrefl _)

/-- A number other than zero has one double. -/
theorem Canonical.eq_of_value_eq (hb : b.Canonical) (hc : c.Canonical) (h : b.value = c.value)
    (hne : b.value ≠ 0) : b = c := by
  have habs : |b.value| = |c.value| := by rw [h]
  have hexponent : b.exponent = c.exponent :=
    le_antisymm (hb.exponent_le hc habs) (hc.exponent_le hb habs.symm)
  have hpow : (2 ^ c.exponent : ℚ) ≠ 0 := (zpow_pos two_pos _).ne'
  have hsigned : signedBy b.negative b.significand = signedBy c.negative c.significand := by
    rw [value, value, hexponent, mul_left_inj' hpow] at h
    exact_mod_cast h
  have hpos : 0 < b.significand := by
    rw [Nat.pos_iff_ne_zero]
    rintro hzero
    rw [← abs_ne_zero, abs_value, hzero, Nat.cast_zero, zero_mul] at hne
    contradiction
  obtain ⟨hnegative, hsignificand⟩ := signedBy_inj hpos hsigned
  obtain ⟨negative, significand, exponent⟩ := b
  obtain ⟨negative', significand', exponent'⟩ := c
  obtain rfl : negative = negative' := hnegative
  obtain rfl : significand = significand' := hsignificand
  obtain rfl : exponent = exponent' := hexponent
  rfl

/-- Finite doubles that denote the same number, which is not zero, have the same bits. -/
theorem toBits_eq_of_value_eq {x y : Float} (hb : ofFloat? x = some b) (hc : ofFloat? y = some c)
    (h : b.value = c.value) (hne : b.value ≠ 0) : x.toBits = y.toBits := by
  obtain ⟨hcanonical, hbits⟩ := canonical_of_ofFloat? hb
  obtain ⟨hcanonical', hbits'⟩ := canonical_of_ofFloat? hc
  rw [← UInt64.toNat_inj, hbits, hbits', hcanonical.eq_of_value_eq hcanonical' h hne]

/-- Doubles with the same bits are taken apart in the same way. -/
theorem ofFloat?_congr {x y : Float} (h : x.toBits = y.toBits) : ofFloat? x = ofFloat? y := by
  rw [ofFloat?, ofFloat?, h]

end Binary

end TreeQuery
