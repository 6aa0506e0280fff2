import TreeQuery.Number.Decimal.Arithmetic
import TreeQuery.Proofs.Number.Nearest

/-!
# Quotients of decimals

A quotient is as near as its last place allows, and exact if a decimal denotes it: a long division does
not stop before its last place, unless it comes out even or the mantissa is full.
-/

namespace TreeQuery.Decimal

/-! ### The places of a quotient -/

/-- A mantissa is full behind the digits for which there is room. -/
theorem full_of_room_lt {q limit : ℕ} (h : room q limit < limit) :
    twoTo 96 ≤ q * tenTo (room q limit + 1) := by
  induction limit with
  | zero => contradiction
  | succ n ih =>
    simp only [room] at h ⊢
    split at h
    · omega
    · next hfull =>
      rw [if_neg hfull]
      rcases Nat.lt_or_ge (room q n) n with hlt | hge
      · exact ih hlt
      · rw [Nat.le_antisymm (room_le q n) hge]
        exact not_lt.mp hfull

/-- Whether there is no room for one more digit behind the quotient by `d`. -/
def Full (n d : ℕ) : Prop := twoTo 96 ≤ n / d * 10

private theorem room_of_full {n d : ℕ} (h : Full n d) (limit : ℕ) : room (n / d) limit = 0 := by
  induction limit with
  | zero => rfl
  | succ limit ih =>
    have hmore : n / d * 10 ≤ n / d * tenTo (limit + 1) :=
      Nat.mul_le_mul_left _ (tenTo_le_tenTo (Nat.succ_le_succ (Nat.zero_le limit)))
    rw [room, if_neg (not_lt.mpr (h.trans hmore)), ih]

private theorem full_mul {n d digits : ℕ} (h : twoTo 96 ≤ n / d * tenTo (digits + 1)) :
    Full (n * tenTo digits) d := by
  refine h.trans ?_
  rw [tenTo_succ, ← Nat.mul_assoc]
  refine Nat.mul_le_mul_right 10 ?_
  rw [Nat.mul_comm, Nat.mul_comm n]
  exact Nat.mul_div_le_mul_div_assoc ..

/-- A long division stops where it comes out even, at its last place, or when the mantissa is full. -/
theorem digitsBehind_stops (m d limit written groups : ℕ) (hwritten : written ≤ limit)
    (h : limit ≤ written + 9 * groups ∨ Full (m * tenTo written) d) :
    m * tenTo (digitsBehind m d limit written groups) % d = 0 ∨
      digitsBehind m d limit written groups = limit ∨
      Full (m * tenTo (digitsBehind m d limit written groups)) d := by
  induction groups generalizing written with
  | zero => exact .inr (h.imp_left fun h => le_antisymm hwritten h)
  | succ groups ih =>
    simp only [digitsBehind]
    split
    · next hstop =>
      refine hstop.imp_right fun hroom => ?_
      rcases Nat.eq_or_lt_of_le hwritten with heq | hlt
      · exact .inl heq
      · right
        have hlimit : 0 < min 9 (limit - written) := by omega
        have hfull := full_of_room_lt (hroom ▸ hlimit)
        rwa [hroom] at hfull
    · next hgo =>
      have hle := room_le (m * tenTo written / d) (min 9 (limit - written))
      refine ih _ (by omega) ?_
      rcases h with hlimit | hfull
      · rcases Nat.eq_or_lt_of_le hle with heq | hlt
        · left
          omega
        · right
          rw [tenTo_add, ← Nat.mul_assoc]
          exact full_mul (full_of_room_lt hlt)
      · exact absurd (.inr (room_of_full hfull _)) hgo

section Places

variable {m d w i j k : ℕ}

private theorem split_places (h : w + i ≤ j + k) :
    m * tenTo j * tenTo k = m * tenTo w * tenTo (j + k - (w + i)) * tenTo i := by
  have hsum : j + k = w + (j + k - (w + i)) + i := by omega
  rw [Nat.mul_assoc, ← tenTo_add, hsum, tenTo_add, tenTo_add, ← hsum, ← Nat.mul_assoc, ← Nat.mul_assoc]

/-- Where a division comes out even, it has the digits of the quotient. -/
theorem digits_of_even (heven : m * tenTo w % d = 0) (h : w + i ≤ j + k) :
    m * tenTo j * tenTo k = m * tenTo w / d * tenTo (j + k - (w + i)) * (d * tenTo i) := by
  rw [split_places h]
  nth_rewrite 1 [← Nat.div_mul_cancel (Nat.dvd_of_mod_eq_zero heven)]
  ring

/-- Behind a full mantissa, a quotient with one more digit has no mantissa. -/
theorem le_of_full {q : ℕ} (hd : 0 < d) (hfull : Full (m * tenTo w) d) (h : w + i < j + k)
    (hq : m * tenTo j * tenTo k = q * (d * tenTo i)) : twoTo 96 ≤ q := by
  refine hfull.trans (Nat.le_of_mul_le_mul_right (c := d * tenTo i) ?_
    (Nat.mul_pos hd (tenTo_pos i)))
  have hten : tenTo 1 ≤ tenTo (j + k - (w + i)) := tenTo_le_tenTo (by omega)
  calc m * tenTo w / d * 10 * (d * tenTo i)
      = m * tenTo w / d * d * 10 * tenTo i := by ring
    _ ≤ m * tenTo w * tenTo (j + k - (w + i)) * tenTo i :=
        Nat.mul_le_mul_right _ (Nat.mul_le_mul (Nat.div_mul_le_self _ _) hten)
    _ = q * (d * tenTo i) := by rw [← split_places h.le, hq]

end Places

/-- If the quotient of two mantissas, moved by their places, has a mantissa, it has one with the places of
the division. -/
theorem exists_digits_of_quotient {a b e : Decimal} (hb : 0 < b.mantissa)
    (h : a.mantissa * tenTo b.scale * tenTo e.scale = e.mantissa * (b.mantissa * tenTo a.scale)) :
    ∃ places m, places ≤ quotientPlaces a b ∧ m < twoTo 96 ∧
      a.mantissa * tenTo b.scale * tenTo places = m * (b.mantissa * tenTo a.scale) := by
  rcases Nat.lt_or_ge (quotientPlaces a b) e.scale with hlt | hle
  · have hplaces : quotientPlaces a b = digitsBehind a.mantissa b.mantissa
      (28 + b.scale - a.scale) 0 7 + a.scale - b.scale := rfl
    have hstops := digitsBehind_stops a.mantissa b.mantissa (28 + b.scale - a.scale) 0 7
      (Nat.zero_le _) (.inl (by have := b.scale_le; omega))
    generalize digitsBehind a.mantissa b.mantissa (28 + b.scale - a.scale) 0 7 = w at hplaces hstops
    have ha := a.scale_le
    have he := e.scale_le
    rcases hstops with heven | hlimit | hfull
    · have hdigits := digits_of_even (i := a.scale) (j := b.scale) (k := quotientPlaces a b) heven
        (by omega)
      refine ⟨_, _, le_refl _, (Nat.le_of_mul_le_mul_right ?_
        (Nat.mul_pos hb (tenTo_pos a.scale))).trans_lt e.mantissa_lt, hdigits⟩
      rw [← hdigits, ← h]
      exact Nat.mul_le_mul_left _ (tenTo_le_tenTo hlt.le)
    · omega
    · exact absurd (le_of_full hb hfull (by omega) h) (not_le.mpr e.mantissa_lt)
  · exact ⟨e.scale, e.mantissa, hle, e.mantissa_lt, h⟩

/-! ### Zeros at the end -/

private theorem negative_dropZeros (n : ℕ) (d : Decimal) : (dropZeros n d).negative = d.negative := by
  unfold dropZeros
  split <;> rfl

private theorem scale_dropZeros_le (n : ℕ) (d : Decimal) : (dropZeros n d).scale ≤ d.scale := by
  unfold dropZeros
  split
  · exact Nat.sub_le ..
  · exact le_refl _

@[simp] private theorem value_dropZeros (n : ℕ) (d : Decimal) : (dropZeros n d).value = d.value := by
  have hsigned : (dropZeros n d).signed * tenTo (d.scale - (dropZeros n d).scale) = d.signed := by
    rw [signed, signed, negative_dropZeros, ← mantissa_dropZeros n d]
    split <;> push_cast <;> ring
  rw [value_eq_div (scale_dropZeros_le n d), hsigned, value]

@[simp] private theorem value_dropEightZeros (d : Decimal) : (dropEightZeros d).value = d.value := by
  unfold dropEightZeros
  split
  · exact value_dropZeros 8 d
  · rfl

private theorem scale_dropEightZeros_le (d : Decimal) : (dropEightZeros d).scale ≤ d.scale := by
  unfold dropEightZeros
  split
  · exact scale_dropZeros_le 8 d
  · exact le_refl _

private theorem value_dropZeroGroups (d : Decimal) : (dropZeroGroups d).value = d.value := by
  simp [dropZeroGroups]

private theorem scale_dropZeroGroups_le (d : Decimal) : (dropZeroGroups d).scale ≤ d.scale := by
  unfold dropZeroGroups
  calc _ ≤ _ := scale_dropZeros_le _ _
    _ ≤ _ := scale_dropZeros_le _ _
    _ ≤ _ := scale_dropZeros_le _ _
    _ ≤ _ := scale_dropEightZeros_le _
    _ ≤ _ := scale_dropEightZeros_le _
    _ ≤ _ := scale_dropEightZeros_le _

/-! ### Quotients -/

section Div

variable {a b r : Decimal}

/-- The quotient of two values by their digits. -/
theorem signedBy_div (a b : Decimal) :
    (signedBy (a.negative != b.negative) (a.mantissa * tenTo b.scale) : ℚ) /
      (b.mantissa * tenTo a.scale : ℕ) = a.value / b.value := by
  have hb := (cast_tenTo_pos b.scale).ne'
  have ha := (cast_tenTo_pos a.scale).ne'
  have hswap : (a.mantissa * tenTo b.scale / (b.mantissa * tenTo a.scale) : ℚ) =
      a.mantissa / tenTo a.scale / (b.mantissa / tenTo b.scale) := by
    rw [div_div_div_eq, mul_comm (b.mantissa : ℚ)]
  cases hna : a.negative <;> cases hnb : b.negative <;>
    simp [value, signed, signedBy, hna, hnb, neg_div, div_neg, hswap]

/-- The quotient of zero is zero. Every other quotient is rounded once, and zeros at its end may be
dropped. -/
theorem div_cases (a b : Decimal) :
    (∃ r, a.div b = some r ∧ r.value = a.value / b.value) ∨
      ∃ drop : Decimal → Decimal, (∀ d, (drop d).value = d.value ∧ (drop d).scale ≤ d.scale) ∧
        a.div b = (nearest? (a.negative != b.negative) (a.mantissa * tenTo b.scale)
          (b.mantissa * tenTo a.scale) (quotientPlaces a b)).map drop := by
  cases ha : a.isZero with
  | true => exact .inl ⟨zero, by simp [div, ha], by rw [value_eq_zero.mpr ha, zero_div, value_zero]⟩
  | false =>
    by_cases heven : a.mantissa % b.mantissa = 0
    · exact .inr ⟨id, fun d => ⟨rfl, le_refl _⟩, by simp [div, ha, heven]⟩
    · exact .inr ⟨dropZeroGroups, fun d => ⟨value_dropZeroGroups d, scale_dropZeroGroups_le d⟩,
        by simp [div, ha, heven]⟩

private theorem divisor_pos (hb : b.isZero = false) : 0 < b.mantissa * tenTo a.scale :=
  Nat.mul_pos (mantissa_pos hb) (tenTo_pos _)

/-- The quotient is as near as its last place allows. -/
theorem nears_div (hb : b.isZero = false) (h : a.div b = some r) : r.Nears (a.value / b.value) := by
  rcases div_cases a b with ⟨c, hc, hvalue⟩ | ⟨drop, hdrop, hdiv⟩
  · obtain rfl : c = r := Option.some.inj (hc.symm.trans h)
    exact hvalue ▸ c.nears_value
  · obtain ⟨q, hq, rfl⟩ := Option.map_eq_some_iff.mp (hdiv ▸ h)
    have hnears := nears_nearest? (divisor_pos hb) hq
    rw [signedBy_div] at hnears
    exact hnears.of_value_eq (hdrop q).1 (hdrop q).2

/-- There is no quotient only if it reaches `2 ^ 96` when it is rounded. -/
theorem div_eq_none_iff (hb : b.isZero = false) :
    a.div b = none ↔ (twoTo 96 - 1 / 2 : ℚ) ≤ |a.value / b.value| := by
  rcases div_cases a b with ⟨c, hc, hvalue⟩ | ⟨drop, -, hdiv⟩
  · have hsize := c.abs_value_le
    rw [← hvalue, hc]
    exact iff_of_false (Option.some_ne_none c) (by linarith)
  · rw [hdiv, Option.map_eq_none_iff, nearest?_eq_none_iff (divisor_pos hb) (quotientPlaces_le a b),
      ← signedBy_div, abs_div, abs_signedBy, Nat.abs_cast]

/-- A quotient that a decimal denotes is exact. -/
theorem div_exact (hb : b.isZero = false) (h : Denoted (a.value / b.value)) :
    ∃ r, a.div b = some r ∧ r.value = a.value / b.value := by
  rcases div_cases a b with hexact | ⟨drop, hdrop, hdiv⟩
  · exact hexact
  · obtain ⟨e, he⟩ := h
    have hdigits : a.mantissa * tenTo b.scale * tenTo e.scale =
        e.mantissa * (b.mantissa * tenTo a.scale) := by
      have habs : |e.value| = |a.value / b.value| := by rw [he]
      rw [← signedBy_div, abs_div, abs_signedBy, abs_value, Nat.abs_cast, div_eq_div_iff
        (cast_tenTo_pos _).ne' (Nat.cast_ne_zero.mpr (divisor_pos hb).ne')] at habs
      exact_mod_cast habs.symm
    obtain ⟨places, m, hplaces, hm, hmul⟩ := exists_digits_of_quotient (mantissa_pos hb) hdigits
    obtain ⟨q, hq, hvalue⟩ := nearest?_exact (divisor_pos hb) (quotientPlaces_le a b) hplaces hm hmul
    refine ⟨drop q, by rw [hdiv, hq]; rfl, ?_⟩
    rw [(hdrop q).1, hvalue, signedBy_div]

end Div

end TreeQuery.Decimal
