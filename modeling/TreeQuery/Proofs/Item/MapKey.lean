import TreeQuery.Proofs.Item.Table
import TreeQuery.Proofs.Number.Binary
import TreeQuery.Proofs.Number.Normalize

/-!
# Numbers as keys

A number that is a 64-bit integer is one key, whatever type it comes with. Any other number is one key
for decimals and another one for doubles. So a key never stands for two numbers, but a number outside
the integers stands under two keys.
-/

namespace TreeQuery

/-- The rational number that a value denotes, if it is a number and finite. -/
def Atomic.rational? : Atomic → Option ℚ
  | .integer i => some i.toInt
  | .decimal d => some d.value
  | .double x => (Binary.ofFloat? x).map Binary.value
  | _ => none

/-- Whether a value is a double. -/
def Atomic.isDouble : Atomic → Bool
  | .double _ => true
  | _ => false

/-- Whether a number is a 64-bit integer. -/
def IsInt64 (x : ℚ) : Prop := ∃ i : Int64, x = i.toInt

namespace MapKey

/-! ### The key of a number -/

/-- A number without a fraction is looked for among the integers. -/
theorem whole_fit?_eq_some_iff {x : ℚ} {whole : Bool} {n : ℤ} {i : Int64}
    (hwhole : whole = true ↔ ∃ n : ℤ, x = n) (hn : n = trunc x) :
    (if whole then Integer.fit? n else none) = some i ↔ x = i.toInt := by
  rw [Option.ite_none_right_eq_some, Integer.fit?_eq_some_iff, hwhole, hn]
  constructor
  · rintro ⟨⟨m, rfl⟩, hfits⟩
    rw [← hfits, trunc_intCast]
  · rintro rfl
    exact ⟨⟨i.toInt, rfl⟩, trunc_intCast _⟩

/-- Either a number is a 64-bit integer and found, or it is none. -/
theorem whole_fit?_cases {x : ℚ} {whole : Bool} {n : ℤ} (hwhole : whole = true ↔ ∃ n : ℤ, x = n)
    (hn : n = trunc x) :
    (∃ i : Int64, x = i.toInt ∧ (if whole then Integer.fit? n else none) = some i) ∨
      ¬ IsInt64 x ∧ (if whole then Integer.fit? n else none) = none := by
  cases hfound : (if whole then Integer.fit? n else none) with
  | some i => exact .inl ⟨i, (whole_fit?_eq_some_iff hwhole hn).mp hfound, rfl⟩
  | none =>
    refine .inr ⟨?_, rfl⟩
    rintro ⟨i, hi⟩
    rw [(whole_fit?_eq_some_iff hwhole hn).mpr hi] at hfound
    contradiction

private theorem ofDecimal_cases (d : Decimal) :
    (∃ i : Int64, d.value = i.toInt ∧ ofDecimal d = .integer i) ∨
      ¬ IsInt64 d.value ∧ ofDecimal d = .decimal d.normalize := by
  have hcases := whole_fit?_cases Decimal.isWhole_iff d.signed_truncate
  rw [← Decimal.toInt64?] at hcases
  unfold ofDecimal
  rcases hcases with ⟨i, hi, hfound⟩ | ⟨hno, hfound⟩
  · exact .inl ⟨i, hi, by rw [hfound]⟩
  · exact .inr ⟨hno, by rw [hfound]⟩

private theorem ofDouble_cases {x : Float} {b : Binary} (hb : Binary.ofFloat? x = some b) :
    (∃ i : Int64, b.value = i.toInt ∧ ofDouble x = .integer i) ∨
      ¬ IsInt64 b.value ∧ ofDouble x = .double x.toBits := by
  simp only [ofDouble, hb]
  rcases whole_fit?_cases Binary.isWhole_iff b.truncated_eq with ⟨i, hi, hfound⟩ | ⟨hno, hfound⟩
  · exact .inl ⟨i, hi, by rw [hfound]⟩
  · exact .inr ⟨hno, by rw [hfound]⟩

/-- The key of a number: that of an integer if it is one, or else what its type makes of it. -/
theorem ofAtomic_cases {a : Atomic} {x : ℚ} (ha : a.rational? = some x) :
    (∃ i : Int64, x = i.toInt ∧ ofAtomic a = .integer i) ∨ ¬ IsInt64 x ∧
      ((∃ d : Decimal, d.value = x ∧ a.isDouble = false ∧ ofAtomic a = .decimal d.normalize) ∨
        ∃ y b, Binary.ofFloat? y = some b ∧ b.value = x ∧ a.isDouble = true ∧
          ofAtomic a = .double y.toBits) := by
  cases a with
  | integer i => exact .inl ⟨i, (Option.some.inj ha).symm, rfl⟩
  | decimal d =>
    obtain rfl := Option.some.inj ha
    exact (ofDecimal_cases d).imp_right fun ⟨hno, hkey⟩ => ⟨hno, .inl ⟨d, rfl, rfl, hkey⟩⟩
  | double y =>
    obtain ⟨b, hb, rfl⟩ := Option.map_eq_some_iff.mp ha
    exact (ofDouble_cases hb).imp_right fun ⟨hno, hkey⟩ => ⟨hno, .inr ⟨y, b, hb, rfl, rfl, hkey⟩⟩
  | string _ | boolean _ | untyped _ => contradiction

/-! ### Numbers with the same key -/

variable {a b : Atomic} {x y : ℚ}

/-- Two numbers have the same key if they are equal and are of one kind, doubles or not, or integers. -/
theorem ofAtomic_eq_iff (ha : a.rational? = some x) (hb : b.rational? = some y) :
    ofAtomic a = ofAtomic b ↔ x = y ∧ (a.isDouble = b.isDouble ∨ IsInt64 x) := by
  rcases ofAtomic_cases ha with ⟨i, hi, hkey⟩ | ⟨hx, hother⟩ <;>
    rcases ofAtomic_cases hb with ⟨j, hj, hkey'⟩ | ⟨hy, hother'⟩
  · rw [hkey, hkey', MapKey.integer.injEq, hi, hj, Int.cast_inj, Int64.toInt_inj]
    exact ⟨fun h => ⟨h, .inr ⟨i, rfl⟩⟩, fun h => h.1⟩
  · refine iff_of_false ?_ fun ⟨h, _⟩ => hy ⟨i, h ▸ hi⟩
    rw [hkey]
    rcases hother' with ⟨d, -, -, hkey'⟩ | ⟨z, c, -, -, -, hkey'⟩ <;> simp [hkey']
  · refine iff_of_false ?_ fun ⟨h, _⟩ => hx ⟨j, h.trans hj⟩
    rw [hkey']
    rcases hother with ⟨d, -, -, hkey⟩ | ⟨z, c, -, -, -, hkey⟩ <;> simp [hkey]
  -- Neither is an integer: a decimal and a double have keys of two kinds, two of a kind are compared.
  · rcases hother with ⟨d, hd, hkind, hkey⟩ | ⟨z, c, hc, hvalue, hkind, hkey⟩ <;>
      rcases hother' with ⟨e, he, hkind', hkey'⟩ | ⟨w, f, hf, hvalue', hkind', hkey'⟩
    · rw [hkey, hkey', MapKey.decimal.injEq, Decimal.normalize_eq_iff, hd, he, hkind, hkind']
      simp
    · rw [hkey, hkey', hkind, hkind']
      simp [hx]
    · rw [hkey, hkey', hkind, hkind']
      simp [hx]
    · rw [hkey, hkey', hkind, hkind', MapKey.double.injEq]
      constructor
      · intro hbits
        rw [Binary.ofFloat?_congr hbits, hf, Option.some.injEq] at hc
        exact ⟨by rw [← hvalue, ← hvalue', hc], .inl rfl⟩
      · rintro ⟨h, -⟩
        refine Binary.toBits_eq_of_value_eq hc hf (by rw [hvalue, hvalue', h]) ?_
        rw [hvalue]
        exact fun hzero => hx ⟨0, by simpa using hzero⟩

/-- Numbers with the same key are equal, and so what is put under one number is not found under another.
Equal numbers have the same key if both are doubles, or neither is, or they are 64-bit integers. Then what
is put under one is found under the other. A double with a fraction has a key of its own, which is that of
no decimal. -/
theorem ofAtomic_identifies_numbers {V : Type} (ha : a.rational? = some x) (hb : b.rational? = some y)
    (t : Table V) (v : V) :
    (ofAtomic a = ofAtomic b → x = y) ∧
      (x ≠ y → (t.put (ofAtomic a) v).get? (ofAtomic b) = t.get? (ofAtomic b)) ∧
      (x = y → a.isDouble = b.isDouble ∨ IsInt64 x →
        ofAtomic a = ofAtomic b ∧ (t.put (ofAtomic a) v).get? (ofAtomic b) = some v) ∧
      (x = y → a.isDouble ≠ b.isDouble → (∀ n : ℤ, x ≠ n) → ofAtomic a ≠ ofAtomic b) := by
  have hiff := ofAtomic_eq_iff ha hb
  refine ⟨fun hkey => (hiff.mp hkey).1, fun hne => ?_, fun heq hkind => ?_, fun heq hkind hwhole hkey => ?_⟩
  · rw [Table.get?_put, if_neg fun hkey => hne (hiff.mp hkey).1]
  · have hkey := hiff.mpr ⟨heq, hkind⟩
    exact ⟨hkey, by rw [Table.get?_put, if_pos hkey]⟩
  · obtain ⟨-, hsame | ⟨i, hi⟩⟩ := hiff.mp hkey
    · exact hkind hsame
    · exact hwhole i.toInt hi

/-- A whole number is found under a double, when it was put there as a decimal with places. -/
theorem ofAtomic_identifies_numbers_three :
    let a : Atomic := .decimal ⟨false, 300, 2, by decide, by decide⟩
    let b : Atomic := .double 3.0
    a.rational? = some 3 ∧ b.rational? = some 3 ∧ IsInt64 3 ∧
      ofAtomic a = ofAtomic b ∧ Table.get? (ofAtomic b) (Table.put (ofAtomic a) true []) = some true := by
  intro a b
  have ha : a.rational? = some 3 := by
    norm_num [a, Atomic.rational?, Decimal.value, Decimal.signed, tenTo]
  have hparts : Binary.ofFloat? 3.0 = some ⟨false, 6755399441055744, -51⟩ := by decide +kernel
  have hb : b.rational? = some 3 := by
    rw [Atomic.rational?, hparts]
    norm_num [Binary.value, Decimal.signedBy]
  have hint : IsInt64 3 := ⟨3, rfl⟩
  exact ⟨ha, hb, hint, (ofAtomic_identifies_numbers ha hb [] true).2.2.1 rfl (.inr hint)⟩

/-- One half has a key as a decimal and another one as a double. -/
theorem half_has_two_keys :
    let a : Atomic := .decimal ⟨false, 5, 1, by decide, by decide⟩
    let b : Atomic := .double 0.5
    a.rational? = some (1 / 2) ∧ b.rational? = some (1 / 2) ∧ ofAtomic a ≠ ofAtomic b ∧
      Table.get? (ofAtomic b) (Table.put (ofAtomic a) true []) = none := by
  intro a b
  have hparts : Binary.ofFloat? 0.5 = some ⟨false, 4503599627370496, -53⟩ := by decide +kernel
  refine ⟨?_, ?_, by decide +kernel, by decide +kernel⟩
  · norm_num [a, Atomic.rational?, Decimal.value, Decimal.signed, tenTo]
  · rw [Atomic.rational?, hparts]
    norm_num [Binary.value, Decimal.signedBy]

end MapKey

end TreeQuery
