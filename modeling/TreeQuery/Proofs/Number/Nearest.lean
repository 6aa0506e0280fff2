import TreeQuery.Proofs.Number.Value

/-!
# Rounding to a decimal

A number is rounded to a decimal by half a unit in its last place at most. So it is not carried past a
whole number, and nothing is lost if some decimal with as many places denotes it. Only numbers that are
too large by half have no decimal.
-/

namespace TreeQuery.Decimal

/-! ### Rounding to a whole number -/

private theorem roundHalfEven_near (num : ℕ) {den : ℕ} (hden : 0 < den) :
    2 * (roundHalfEven num den * den) ≤ 2 * num + den ∧
      2 * num ≤ 2 * (roundHalfEven num den * den) + den := by
  have hdiv := Nat.div_add_mod' num den
  have hmod := Nat.mod_lt num hden
  simp only [roundHalfEven]
  split
  · omega
  split
  · rw [Nat.add_mul, Nat.one_mul]
    omega
  · rcases Nat.mod_two_eq_zero_or_one (num / den) with heven | hodd
    · rw [heven, Nat.add_zero]
      omega
    · rw [hodd, Nat.add_mul, Nat.one_mul]
      omega

private theorem roundHalfEven_mul (m : ℕ) {den : ℕ} (hden : 0 < den) : roundHalfEven (m * den) den =
    m := by
  simp [roundHalfEven, hden]

/-- What is rounded to an even number or more is at most half below it. -/
theorem le_roundHalfEven_iff {num den n : ℕ} (hden : 0 < den) (heven : n % 2 = 0) :
    n ≤ roundHalfEven num den ↔ 2 * (n * den) ≤ 2 * num + den := by
  have hdiv := Nat.div_add_mod' num den
  have hmod := Nat.mod_lt num hden
  rcases Nat.lt_or_ge (num / den) n with hlt | hle
  · rcases Nat.eq_or_lt_of_le (Nat.succ_le_of_lt hlt) with hnext | hbeyond
    · -- Halfway below `n` the quotient is odd, so a half is rounded up.
      have hmul : n * den = num / den * den + den := by rw [← hnext, Nat.succ_mul]
      simp only [roundHalfEven]
      split
      · omega
      split <;> omega
    · have hmul : (num / den + 2) * den ≤ n * den := Nat.mul_le_mul_right den hbeyond
      rw [Nat.add_mul] at hmul
      simp only [roundHalfEven]
      split
      · omega
      split <;> omega
  · have hmul : n * den ≤ num / den * den := Nat.mul_le_mul_right den hle
    simp only [roundHalfEven]
    split
    · omega
    split <;> omega

/-! ### Being near to a number -/

/-- Whether a decimal is as near to a number as its last place allows. -/
def Nears (d : Decimal) (x : ℚ) : Prop := |d.signed - x * tenTo d.scale| ≤ 1 / 2

/-- Whether some decimal denotes a number. -/
def Denoted (x : ℚ) : Prop := ∃ d : Decimal, d.value = x

section Nears

variable {d : Decimal} {x : ℚ} {n : ℤ}

/-- A decimal is as near to its value as one can be. -/
theorem nears_value (d : Decimal) : d.Nears d.value := by
  simp [Nears, value, div_mul_cancel₀ _ (cast_tenTo_pos d.scale).ne']

private theorem Nears.neg (h : d.Nears x) : d.neg.Nears (-x) := by
  have hsigned : (d.neg.signed : ℚ) = -d.signed := by
    cases h : d.negative <;> simp [signed, Decimal.neg, h]
  have hflip : -d.signed - -x * tenTo d.scale = -(d.signed - x * tenTo d.scale) := by ring
  rw [Nears, hsigned, show d.neg.scale = d.scale from rfl, hflip, abs_neg]
  exact h

/-- The number is missed by half a unit in the last place at most. -/
theorem nears_iff : d.Nears x ↔ |d.value - x| ≤ 1 / 2 / tenTo d.scale := by
  have hpos := cast_tenTo_pos d.scale
  have hsub : d.value - x = (d.signed - x * tenTo d.scale) / tenTo d.scale := by
    rw [value]
    field_simp
  rw [hsub, abs_div, abs_of_pos hpos, div_le_div_iff_of_pos_right hpos, Nears]

/-- With the same value and fewer places, a decimal is at least as near. -/
theorem Nears.of_value_eq {e : Decimal} (h : d.Nears x) (hvalue : e.value = d.value)
    (hscale : e.scale ≤ d.scale) : e.Nears x := by
  rw [nears_iff, hvalue]
  refine (nears_iff.mp h).trans (div_le_div_of_nonneg_left (by norm_num) (cast_tenTo_pos _) ?_)
  exact_mod_cast tenTo_le_tenTo hscale

/-- Rounding is not carried past a number that has as many places. -/
theorem Nears.le_signed (h : d.Nears x) (hn : n ≤ x * tenTo d.scale) : n ≤ d.signed := by
  have hnear := (abs_le.mp h).1
  have hlt : (n : ℚ) < d.signed + 1 := by linarith
  exact Int.lt_add_one_iff.mp (by exact_mod_cast hlt)

private theorem Nears.signed_le (h : d.Nears x) (hn : x * tenTo d.scale ≤ n) : d.signed ≤ n := by
  have hnear := (abs_le.mp h).2
  have hlt : (d.signed : ℚ) < n + 1 := by linarith
  exact Int.lt_add_one_iff.mp (by exact_mod_cast hlt)

/-- A number that has as many places is not changed. -/
theorem Nears.value_eq (h : d.Nears x) (hn : x * tenTo d.scale = n) : d.value = x := by
  have hsigned : d.signed = n := le_antisymm (h.signed_le hn.le) (h.le_signed hn.ge)
  rw [value, hsigned, ← hn, mul_div_cancel_right₀ _ (cast_tenTo_pos _).ne']

private theorem Nears.le_value (h : d.Nears x) (hn : n ≤ x) : n ≤ d.value := by
  have hpos := cast_tenTo_pos d.scale
  have hgrid : ((n * tenTo d.scale : ℤ) : ℚ) ≤ x * tenTo d.scale := by
    push_cast
    exact mul_le_mul_of_nonneg_right hn hpos.le
  rw [value, le_div_iff₀ hpos]
  exact_mod_cast h.le_signed hgrid

private theorem Nears.value_le (h : d.Nears x) (hn : x ≤ n) : d.value ≤ n := by
  have hneg := h.neg.le_value (n := -n) (by simpa using hn)
  rw [value_neg] at hneg
  push_cast at hneg
  linarith

/-- The floor of a number is kept, unless it is rounded up to a whole number. -/
theorem Nears.floor_value (h : d.Nears x) :
    ⌊d.value⌋ = ⌊x⌋ ∨ x < d.value ∧ d.value = ⌈x⌉ := by
  have hlow : ⌊x⌋ ≤ d.value := h.le_value (Int.floor_le x)
  have hhigh : d.value ≤ ⌈x⌉ := h.value_le (Int.le_ceil x)
  rcases hhigh.lt_or_eq with hlt | heq
  · left
    rw [Int.floor_eq_iff]
    have hnext : (⌈x⌉ : ℚ) ≤ ⌊x⌋ + 1 := by exact_mod_cast Int.ceil_le_floor_add_one x
    exact ⟨hlow, hlt.trans_le hnext⟩
  · rcases (Int.le_ceil x).lt_or_eq with hlt | hwhole
    · exact .inr ⟨heq ▸ hlt, heq⟩
    · left
      rw [heq, ← hwhole]

/-- The number without its fraction is kept, unless it is rounded to a whole number further from zero. -/
theorem Nears.trunc_value (h : d.Nears x) :
    trunc d.value = trunc x ∨ |x| < |d.value| ∧ d.value = trunc d.value := by
  wlog hx : 0 ≤ x generalizing d x
  · have hneg := this h.neg (by linarith)
    rwa [value_neg, trunc_neg, trunc_neg, neg_inj, abs_neg, abs_neg, Int.cast_neg, neg_inj] at hneg
  · have hd : 0 ≤ d.value := by exact_mod_cast h.le_value (n := 0) (by exact_mod_cast hx)
    rw [trunc_of_nonneg hx, trunc_of_nonneg hd, abs_of_nonneg hx, abs_of_nonneg hd]
    refine h.floor_value.imp_right fun ⟨hlt, heq⟩ => ⟨hlt, ?_⟩
    rw [heq, Int.floor_intCast]

end Nears

/-! ### The nearest decimal -/

section Nearest

variable {negative : Bool} {num den scale : ℕ} {r : Decimal}

/-- The nearest decimal has the largest number of places with which the digits fit. -/
theorem nearest?_eq_some (h : nearest? negative num den scale = some r) :
    r.scale ≤ scale ∧ r.signed = signedBy negative (roundHalfEven (num * tenTo r.scale) den) ∧
      ∀ s, r.scale < s → s ≤ scale → s ≤ 28 → twoTo 96 ≤ roundHalfEven (num * tenTo s) den := by
  induction scale with
  | zero =>
    obtain ⟨hsigned, -, hscale⟩ := ofParts?_eq_some h
    rw [hscale, tenTo_zero, Nat.mul_one]
    exact ⟨Nat.le_refl 0, hsigned, fun s hlow hhigh => by omega⟩
  | succ scale ih =>
    simp only [nearest?] at h
    split at h
    · next d hd =>
      obtain rfl : d = r := Option.some.inj h
      obtain ⟨hsigned, -, hscale⟩ := ofParts?_eq_some hd
      rw [hscale]
      exact ⟨Nat.le_refl _, hsigned, fun s hlow hhigh => by omega⟩
    · next hnone =>
      obtain ⟨hscale, hsigned, hlarge⟩ := ih h
      refine ⟨Nat.le_succ_of_le hscale, hsigned, fun s hlow hhigh hplaces => ?_⟩
      rcases Nat.of_le_succ hhigh with hle | rfl
      · exact hlarge s hlow hle hplaces
      · exact (ofParts?_eq_none_iff hplaces).mp hnone

/-- The nearest decimal is as near as its last place allows. -/
theorem nears_nearest? (hden : 0 < den) (h : nearest? negative num den scale = some r) :
    r.Nears (signedBy negative num / den) := by
  obtain ⟨-, hsigned, -⟩ := nearest?_eq_some h
  have hpos : (0 : ℚ) < den := Nat.cast_pos.mpr hden
  obtain ⟨hhigh, hlow⟩ := roundHalfEven_near (num * tenTo r.scale) hden
  have hsub : (r.signed - signedBy negative num / den * tenTo r.scale : ℚ) =
      signedBy negative 1 *
        (roundHalfEven (num * tenTo r.scale) den - num * tenTo r.scale / den) := by
    rw [hsigned]
    cases negative <;> simp only [signedBy] <;> push_cast <;> ring
  have hone : |(signedBy negative 1 : ℚ)| = 1 := by rw [abs_signedBy, Nat.cast_one]
  rw [Nears, hsub, abs_mul, hone, one_mul, abs_le]
  generalize roundHalfEven (num * tenTo r.scale) den = m at hhigh hlow ⊢
  have hhigh : (2 * (m * den) : ℚ) ≤ 2 * (num * tenTo r.scale) + den := by exact_mod_cast hhigh
  have hlow : (2 * (num * tenTo r.scale) : ℚ) ≤ 2 * (m * den) + den := by exact_mod_cast hlow
  constructor
  · rw [neg_le_sub_iff_le_add, div_le_iff₀ hpos]
    linarith
  · rw [sub_le_iff_le_add, ← sub_le_iff_le_add', le_div_iff₀ hpos]
    linarith

/-- If the digits in front of the point do not fit, more digits do not either. -/
theorem nearest?_eq_none_iff_roundHalfEven (hden : 0 < den) (hscale : scale ≤ 28) :
    nearest? negative num den scale = none ↔ twoTo 96 ≤ roundHalfEven num den := by
  have heven : twoTo 96 % 2 = 0 := by decide
  induction scale with
  | zero => exact ofParts?_eq_none_iff hscale
  | succ scale ih =>
    have hmore : num ≤ num * tenTo (scale + 1) := Nat.le_mul_of_pos_right _ (tenTo_pos _)
    simp only [nearest?]
    split
    · next d hd =>
      refine iff_of_false (Option.some_ne_none d) fun hlarge => ?_
      rw [le_roundHalfEven_iff hden heven] at hlarge
      have hdigits : twoTo 96 ≤ roundHalfEven (num * tenTo (scale + 1)) den :=
        (le_roundHalfEven_iff hden heven).mpr (hlarge.trans (by omega))
      exact Option.some_ne_none d (hd.symm.trans ((ofParts?_eq_none_iff hscale).mpr hdigits))
    · exact ih (Nat.le_of_succ_le hscale)

/-- There is no nearest decimal only for numbers that reach `2 ^ 96` when they are rounded. -/
theorem nearest?_eq_none_iff (hden : 0 < den) (hscale : scale ≤ 28) :
    nearest? negative num den scale = none ↔ (twoTo 96 - 1 / 2 : ℚ) ≤ num / den := by
  rw [nearest?_eq_none_iff_roundHalfEven hden hscale, le_roundHalfEven_iff hden (by decide),
    le_div_iff₀ (Nat.cast_pos.mpr hden), ← Nat.cast_le (α := ℚ)]
  push_cast
  constructor <;> intro h <;> linarith

/-- A number that some decimal with no more places denotes is not changed. -/
theorem nearest?_exact {m places : ℕ} (hden : 0 < den) (hscale : scale ≤ 28)
    (hplaces : places ≤ scale) (hm : m < twoTo 96) (h : num * tenTo places = m * den) :
    ∃ r, nearest? negative num den scale = some r ∧ r.value = signedBy negative num / den := by
  have hfits : nearest? negative num den scale ≠ none := by
    have hle : num * 1 ≤ m * den := h ▸ Nat.mul_le_mul_left num (tenTo_pos places)
    have hmul : (m + 1) * den ≤ twoTo 96 * den := Nat.mul_le_mul_right den hm
    rw [Nat.add_mul] at hmul
    rw [Ne, nearest?_eq_none_iff_roundHalfEven hden hscale, le_roundHalfEven_iff hden (by decide)]
    omega
  obtain ⟨r, hr⟩ := Option.ne_none_iff_exists'.mp hfits
  refine ⟨r, hr, (nears_nearest? hden hr).value_eq
    (n := signedBy negative (m * tenTo (r.scale - places))) ?_⟩
  have hroom : places ≤ r.scale := by
    by_contra hlt
    have hlarge := (nearest?_eq_some hr).2.2 places (by omega) hplaces (by omega)
    rw [h, roundHalfEven_mul m hden] at hlarge
    omega
  have hdigits : (num * tenTo r.scale : ℚ) = m * tenTo (r.scale - places) * den := by
    have hsplit : num * tenTo r.scale = m * tenTo (r.scale - places) * den := by
      rw [← Nat.add_sub_cancel' hroom, tenTo_add, ← Nat.mul_assoc, h, Nat.add_sub_cancel_left,
        Nat.mul_right_comm]
    exact_mod_cast hsplit
  have hne : (den : ℚ) ≠ 0 := Nat.cast_ne_zero.mpr hden.ne'
  rw [div_mul_eq_mul_div, div_eq_iff hne]
  cases negative <;> simp only [signedBy] <;> push_cast <;> linarith

end Nearest

end TreeQuery.Decimal
