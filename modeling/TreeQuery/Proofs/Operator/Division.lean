import TreeQuery.Operator.Arithmetic
import TreeQuery.Proofs.Number.Quotient
import TreeQuery.Proofs.Number.Remainder

/-!
# Division to an integer, and what it leaves

For integers, `idiv` is the quotient without its fraction and `mod` what it leaves. For decimals, `mod`
always is a remainder less than the divisor, but `idiv` is taken from a quotient that has been rounded
already: where no decimal denotes the quotient, it may be the next integer further from zero, and the two
need not fit together.
-/

namespace TreeQuery

namespace ArithmeticOp

private theorem orOverflow_eq_ok {α : Type} {op : ArithmeticOp} {result : Option α} {x : α} :
    op.orOverflow result = .ok x ↔ result = some x := by
  cases result <;> simp [orOverflow]

/-! ### Integers -/

section Integers

variable {i j q : Int64}

private theorem toInt_ne_zero (hj : j ≠ 0) : j.toInt ≠ 0 := fun h => hj (Int64.toInt_inj.mp h)

/-- The quotient of integers without its fraction is found if it fits. -/
theorem onIntegers_idiv (hj : j ≠ 0) :
    idiv.onIntegers i j = .ok (.integer q) ↔ q.toInt = trunc (i.toInt / j.toInt) := by
  rw [trunc_div _ (toInt_ne_zero hj)]
  simp only [onIntegers, divides, Bool.true_and, beq_eq_false_iff_ne.mpr hj, Bool.false_eq_true, if_false,
    orOverflow_eq_ok, Option.map_eq_some_iff, Atomic.integer.injEq]
  constructor
  · rintro ⟨x, hx, rfl⟩
    exact Integer.toInt_of_fit? hx
  · intro h
    exact ⟨q, h ▸ Integer.fit?_toInt q, rfl⟩

/-- A remainder of integers always fits. -/
theorem onIntegers_mod (hj : j ≠ 0) :
    ∃ r : Int64, mod.onIntegers i j = .ok (.integer r) ∧ r.toInt = i.toInt.tmod j.toInt := by
  have hfits : ∃ r, Integer.fit? (i.toInt.tmod j.toInt) = some r := by
    obtain ⟨hlow, hhigh⟩ := abs_lt.mp (abs_tmod_lt i.toInt (toInt_ne_zero hj))
    rw [Int.abs_eq_natAbs] at hlow hhigh
    have hle := Integer.natAbs_le j
    have hroom : twoTo 63 = 9223372036854775808 := rfl
    have hmin : Int64.minValue.toInt = -9223372036854775808 := rfl
    have hmax : Int64.maxValue.toInt = 9223372036854775807 := rfl
    refine ⟨_, if_pos ?_⟩
    omega
  obtain ⟨r, hr⟩ := hfits
  refine ⟨r, ?_, Integer.toInt_of_fit? hr⟩
  simp only [onIntegers, divides, Bool.true_and, beq_eq_false_iff_ne.mpr hj, Bool.false_eq_true, if_false,
    hr, Option.map_some, orOverflow]

end Integers

/-! ### Decimals -/

section Decimals

variable {a b : Decimal} {q : Int64}

private theorem toInt64?_eq_some {d : Decimal} : d.toInt64? = some q ↔ q.toInt = trunc d.value := by
  rw [Decimal.toInt64?, Decimal.signed_truncate, Integer.fit?_eq_some_iff, eq_comm]

private theorem onDecimals_idiv (hb : b.isZero = false) :
    idiv.onDecimals a b = .ok (.integer q) ↔ ∃ c, a.div b = some c ∧ q.toInt = trunc c.value := by
  simp only [onDecimals, divides, Bool.true_and, hb, Bool.false_eq_true, if_false, orOverflow_eq_ok,
    Option.map_eq_some_iff, Option.bind_eq_some_iff, Atomic.integer.injEq, exists_eq_right,
    toInt64?_eq_some]

/-- The quotient may have been rounded to a whole number before its fraction is left out. -/
theorem trunc_or_of_onDecimals_idiv (hb : b.isZero = false)
    (hq : idiv.onDecimals a b = .ok (.integer q)) :
    q.toInt = trunc (a.value / b.value) ∨ |a.value / b.value| < |(q.toInt : ℚ)| ∧
      |q.toInt - a.value / b.value| ≤ 1 / 2 := by
  obtain ⟨c, hc, htrunc⟩ := (onDecimals_idiv hb).mp hq
  have hnears := Decimal.nears_div hb hc
  rw [htrunc]
  refine hnears.trunc_value.imp_right fun ⟨hlt, hwhole⟩ => ?_
  have hplaces : (1 : ℚ) ≤ tenTo c.scale := by exact_mod_cast tenTo_pos c.scale
  rw [← hwhole]
  exact ⟨hlt, (Decimal.nears_iff.mp hnears).trans (div_le_self (by norm_num) hplaces)⟩

/-- A quotient that a decimal denotes has not been rounded. -/
theorem onDecimals_idiv_of_denoted (hb : b.isZero = false)
    (h : Decimal.Denoted (a.value / b.value)) :
    idiv.onDecimals a b = .ok (.integer q) ↔ q.toInt = trunc (a.value / b.value) := by
  obtain ⟨c, hc, hvalue⟩ := Decimal.div_exact hb h
  rw [onDecimals_idiv hb, hc, ← hvalue]
  simp

private theorem onDecimals_mod (hb : b.isZero = false) {r : Decimal} :
    mod.onDecimals a b = .ok (.decimal r) ↔ a.rem b = some r := by
  simp only [onDecimals, divides, Bool.true_and, hb, Bool.false_eq_true, if_false, orOverflow_eq_ok,
    Option.map_eq_some_iff, Atomic.decimal.injEq, exists_eq_right]

end Decimals

end ArithmeticOp

/-! ### Numbers of mixed types -/

/-- The rational number that an integer or a decimal denotes. -/
def Numeric.exact? : Numeric → Option ℚ
  | .integer i => some i.toInt
  | .decimal d => some d.value
  | .double _ => none

/-- Whether two numbers divide without loss: a quotient of decimals is not rounded, and no word of it is
lost on the way to the remainder. -/
def NumericPair.DividesExactly : NumericPair → Prop
  | .integers _ _ => True
  | .decimals d e => Decimal.Denoted (d.value / e.value) ∧
      Decimal.KeepsWords (d.digitsAt (max d.scale e.scale)) (e.digitsAt (max d.scale e.scale))
  | .doubles _ _ => False

namespace Atomic

open ArithmeticOp

section Division

variable {x y : Numeric} {a b : ℚ} {q : Int64}

private theorem value_ofInt64 (i : Int64) : (Decimal.ofInt64 i).value = i.toInt := by
  have hsigned : (Decimal.ofInt64 i).signed = i.toInt := Decimal.signedBy_natAbs i.toInt
  rw [Decimal.value_of_scale_eq_zero rfl, hsigned]

/-- Integers are computed with as integers, and all others as decimals of the same value. -/
theorem arithmetic_of_exact (hx : x.exact? = some a) (hy : y.exact? = some b) :
    (∃ i j : Int64, a = i.toInt ∧ b = j.toInt ∧ x.promote y = .integers i j ∧
      ∀ op, (ofNumeric x).arithmetic op (ofNumeric y) = op.onIntegers i j) ∨
    ∃ d e : Decimal, a = d.value ∧ b = e.value ∧ x.promote y = .decimals d e ∧
      ∀ op, (ofNumeric x).arithmetic op (ofNumeric y) = op.onDecimals d e := by
  cases x with
  | double _ => contradiction
  | integer i =>
    obtain rfl : (i.toInt : ℚ) = a := Option.some.inj hx
    cases y with
    | double _ => contradiction
    | integer j => exact .inl ⟨i, j, rfl, (Option.some.inj hy).symm, rfl, fun _ => rfl⟩
    | decimal e =>
      exact .inr ⟨_, e, (value_ofInt64 i).symm, (Option.some.inj hy).symm, rfl, fun _ => rfl⟩
  | decimal d =>
    obtain rfl : d.value = a := Option.some.inj hx
    cases y with
    | double _ => contradiction
    | integer j =>
      exact .inr ⟨d, _, rfl, (Option.some.inj hy).symm.trans (value_ofInt64 j).symm, rfl, fun _ => rfl⟩
    | decimal e => exact .inr ⟨d, e, rfl, (Option.some.inj hy).symm, rfl, fun _ => rfl⟩

private theorem ne_zero_of_toInt {j : Int64} (h : (j.toInt : ℚ) ≠ 0) : j ≠ 0 := by
  rintro rfl
  exact h rfl

private theorem isZero_of_value {e : Decimal} (h : e.value ≠ 0) : e.isZero = false :=
  eq_false_of_ne_true (mt Decimal.value_eq_zero.mpr h)

/-- There is a remainder by every number other than zero. It is less than the divisor, and is zero or has
the sign of the dividend. -/
theorem mod_lt (hx : x.exact? = some a) (hy : y.exact? = some b) (hb : b ≠ 0) :
    ∃ r c, (ofNumeric x).arithmetic .mod (ofNumeric y) = .ok (ofNumeric r) ∧ r.exact? = some c ∧
      |c| < |b| ∧ 0 ≤ c * a := by
  rcases arithmetic_of_exact hx hy with ⟨i, j, rfl, rfl, -, hop⟩ | ⟨d, e, rfl, rfl, -, hop⟩
  · obtain ⟨r, hr, htmod⟩ := onIntegers_mod (i := i) (ne_zero_of_toInt hb)
    refine ⟨.integer r, r.toInt, (hop _).trans hr, rfl, ?_, ?_⟩
    · rw [htmod]
      exact_mod_cast abs_tmod_lt i.toInt (Int.cast_ne_zero.mp hb)
    · rw [htmod]
      exact_mod_cast tmod_mul_nonneg i.toInt j.toInt
  · obtain ⟨r, hr, hlt, hside⟩ := Decimal.rem_lt (a := d) (isZero_of_value hb)
    exact ⟨.decimal r, r.value, (hop _).trans ((onDecimals_mod (isZero_of_value hb)).mpr hr), rfl, hlt,
      hside⟩

/-- Where numbers divide without loss, `idiv` is the quotient without its fraction, if that fits. -/
theorem idiv_eq_ok_iff (hx : x.exact? = some a) (hy : y.exact? = some b) (hb : b ≠ 0)
    (hexact : (x.promote y).DividesExactly) :
    (ofNumeric x).arithmetic .idiv (ofNumeric y) = .ok (.integer q) ↔ q.toInt = trunc (a / b) := by
  rcases arithmetic_of_exact hx hy with ⟨i, j, rfl, rfl, -, hop⟩ | ⟨d, e, rfl, rfl, hpromote, hop⟩
  · rw [hop, onIntegers_idiv (ne_zero_of_toInt hb)]
  · rw [hpromote] at hexact
    rw [hop, onDecimals_idiv_of_denoted (isZero_of_value hb) hexact.1]

/-- The result of `idiv` is the quotient without its fraction. If no decimal denotes the quotient, it may
be the next integer further from zero, to which the quotient has been rounded. -/
theorem idiv_eq_trunc_or (hx : x.exact? = some a) (hy : y.exact? = some b) (hb : b ≠ 0)
    (hq : (ofNumeric x).arithmetic .idiv (ofNumeric y) = .ok (.integer q)) :
    q.toInt = trunc (a / b) ∨
      ¬ Decimal.Denoted (a / b) ∧ |a / b| < |(q.toInt : ℚ)| ∧ |q.toInt - a / b| ≤ 1 / 2 := by
  rcases arithmetic_of_exact hx hy with ⟨i, j, rfl, rfl, -, hop⟩ | ⟨d, e, rfl, rfl, -, hop⟩
  · exact .inl ((onIntegers_idiv (ne_zero_of_toInt hb)).mp (hop _ ▸ hq))
  · have hq := hop .idiv ▸ hq
    by_cases hdenoted : Decimal.Denoted (d.value / e.value)
    · exact .inl ((onDecimals_idiv_of_denoted (isZero_of_value hb) hdenoted).mp hq)
    · exact (trunc_or_of_onDecimals_idiv (isZero_of_value hb) hq).imp_right fun h => ⟨hdenoted, h⟩

/-- A divisor that is larger by one in the last place goes once into a dividend that is too small for it. -/
example : (Decimal.div ⟨false, 7, 0, by decide, by decide⟩
    ⟨false, 70000000000000000000000000001, 28, by decide, by decide⟩).bind Decimal.toInt64? = some 1 := by
  decide +kernel

/-- Where numbers divide without loss, `idiv` and `mod` fit together. -/
theorem idiv_mul_add_mod (hx : x.exact? = some a) (hy : y.exact? = some b) (hb : b ≠ 0)
    (hexact : (x.promote y).DividesExactly)
    (hq : (ofNumeric x).arithmetic .idiv (ofNumeric y) = .ok (.integer q)) :
    ∃ r c, (ofNumeric x).arithmetic .mod (ofNumeric y) = .ok (ofNumeric r) ∧ r.exact? = some c ∧
      a = q.toInt * b + c := by
  have htrunc := (idiv_eq_ok_iff hx hy hb hexact).mp hq
  rcases arithmetic_of_exact hx hy with ⟨i, j, rfl, rfl, -, hop⟩ | ⟨d, e, rfl, rfl, hpromote, hop⟩
  · obtain ⟨r, hr, htmod⟩ := onIntegers_mod (i := i) (ne_zero_of_toInt hb)
    refine ⟨.integer r, r.toInt, (hop _).trans hr, rfl, ?_⟩
    rw [htrunc, trunc_div _ (Int.cast_ne_zero.mp hb), htmod]
    exact_mod_cast (Int.tdiv_mul_add_tmod i.toInt j.toInt).symm
  · rw [hpromote] at hexact
    obtain ⟨r, hr, hdivision⟩ := Decimal.rem_exact (isZero_of_value hb) rfl hexact.2
    refine ⟨.decimal r, r.value, (hop _).trans ((onDecimals_mod (isZero_of_value hb)).mpr hr), rfl, ?_⟩
    rw [htrunc]
    exact hdivision

end Division

end Atomic

end TreeQuery
