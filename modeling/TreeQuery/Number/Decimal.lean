import TreeQuery.Number.Integer

/-!
# Decimals

A decimal is `± mantissa / 10 ^ scale` with a mantissa below `2 ^ 96` and a scale of at most 28.
The scale is kept, so that a decimal remembers how it was written; `normalize` forgets it. A result
with more digits than fit is rounded once, half to even, to the largest scale at which it fits.
-/

namespace TreeQuery

/-- A decimal number, `± mantissa / 10 ^ scale`. -/
structure Decimal where
  /-- Whether a minus sign stands in front. Zero may carry one. -/
  negative : Bool
  /-- All digits, read as one number. -/
  mantissa : Nat
  /-- How many of the digits stand behind the point. -/
  scale : Nat
  mantissa_lt : mantissa < twoTo 96
  scale_le : scale ≤ 28
  deriving DecidableEq

namespace Decimal

/-- A decimal from its parts, if they are within the limits. -/
def ofParts? (negative : Bool) (mantissa scale : Nat) : Option Decimal :=
  if h : mantissa < twoTo 96 ∧ scale ≤ 28 then some ⟨negative, mantissa, scale, h.1, h.2⟩ else none

/-- Zero without a sign or a fraction. -/
def zero : Decimal := ⟨false, 0, 0, by decide, by decide⟩

/-- The decimal with the value of an integer. -/
def ofInt64 (i : Int64) : Decimal where
  negative := i.toInt < 0
  mantissa := i.toInt.natAbs
  scale := 0
  mantissa_lt := Nat.lt_of_le_of_lt (Integer.natAbs_le i) (by decide)
  scale_le := by decide

/-- Whether the value is zero, with or without a sign. -/
def isZero (d : Decimal) : Bool := d.mantissa == 0

/-- The mantissa with the sign. -/
def signed (d : Decimal) : Int := if d.negative then -(d.mantissa : Int) else d.mantissa

/-- Compares two values; the scales do not matter, nor does the sign of zero. -/
def compare (a b : Decimal) : Ordering :=
  Ord.compare (a.signed * tenTo b.scale) (b.signed * tenTo a.scale)

/-- Whether two decimals denote the same number. -/
instance : BEq Decimal where
  beq a b := a.signed * tenTo b.scale == b.signed * tenTo a.scale

/-- The whole number nearest to `num / den`; halfway, the even one. -/
def roundHalfEven (num den : Nat) : Nat :=
  let q := num / den
  let r := num % den
  if 2 * r < den then q else if den < 2 * r then q + 1 else q + q % 2

/-- The decimal nearest to `± num / den` with at most `scale` places, as many as fit. There is none
if not even the whole number fits. -/
def nearest? (negative : Bool) (num den : Nat) : Nat → Option Decimal
  | 0 => ofParts? (negative && roundHalfEven num den != 0) (roundHalfEven num den) 0
  | scale + 1 =>
    let m := roundHalfEven (num * tenTo (scale + 1)) den
    match ofParts? (negative && m != 0) m (scale + 1) with
    | some d => some d
    | none => nearest? negative num den scale

/-- Drops all zeros at the end of a fraction. -/
def stripZeros (mantissa : Nat) : Nat → Nat × Nat
  | 0 => (mantissa, 0)
  | scale + 1 =>
    if mantissa % 10 = 0 then stripZeros (mantissa / 10) scale else (mantissa, scale + 1)

/-- Without the zeros at its end a mantissa and its scale are no larger. -/
theorem stripZeros_le (m s : Nat) : (stripZeros m s).1 ≤ m ∧ (stripZeros m s).2 ≤ s := by
  induction s generalizing m with
  | zero => simp [stripZeros]
  | succ s ih =>
    simp only [stripZeros]
    split
    · have h := ih (m / 10)
      exact ⟨Nat.le_trans h.1 (Nat.div_le_self ..), Nat.le_trans h.2 (Nat.le_succ s)⟩
    · exact ⟨Nat.le_refl _, Nat.le_refl _⟩

/-- The same value with no zeros at the end of its fraction. -/
def strip (d : Decimal) : Decimal where
  negative := d.negative
  mantissa := (stripZeros d.mantissa d.scale).1
  scale := (stripZeros d.mantissa d.scale).2
  mantissa_lt := Nat.lt_of_le_of_lt (stripZeros_le ..).1 d.mantissa_lt
  scale_le := Nat.le_trans (stripZeros_le ..).2 d.scale_le

/-- The one decimal of its value: no zeros end its fraction, and zero has no sign. -/
def normalize (d : Decimal) : Decimal := if d.isZero then zero else d.strip

/-- The digits in front of the point, as a number. -/
def whole (d : Decimal) : Nat := d.mantissa / tenTo d.scale

/-- Whether the value is a whole number. -/
def isWhole (d : Decimal) : Bool := d.mantissa % tenTo d.scale == 0

/-- In front of the point there is room for one more, if there are places. -/
theorem whole_succ_lt (d : Decimal) (h : d.scale ≠ 0) : d.whole + 1 < twoTo 96 := by
  have hm := d.mantissa_lt
  have hp : tenTo 1 ≤ tenTo d.scale := tenTo_le_tenTo (Nat.one_le_iff_ne_zero.mpr h)
  have hw : d.whole ≤ d.mantissa / 10 := Nat.div_le_div_left hp (by decide)
  have ht : 20 ≤ twoTo 96 := by decide
  omega

/-- What stands in front of the point has room in a mantissa. -/
theorem whole_lt (d : Decimal) : d.whole < twoTo 96 :=
  Nat.lt_of_le_of_lt (Nat.div_le_self ..) d.mantissa_lt

/-- The value without its fraction. -/
def truncate (d : Decimal) : Decimal := ⟨d.negative, d.whole, 0, d.whole_lt, by decide⟩

/-- The value without its fraction, one further from zero. -/
def truncateAway (d : Decimal) (h : d.scale ≠ 0) : Decimal :=
  ⟨d.negative, d.whole + 1, 0, d.whole_succ_lt h, by decide⟩

/-- The largest whole number that is not above the value. -/
def floor (d : Decimal) : Decimal :=
  if h : d.scale = 0 then d
  else if d.negative && !d.isWhole then d.truncateAway h else d.truncate

/-- The least whole number that is not below the value. -/
def ceiling (d : Decimal) : Decimal :=
  if h : d.scale = 0 then d
  else if !d.negative && !d.isWhole then d.truncateAway h else d.truncate

/-- The value without its sign. -/
def abs (d : Decimal) : Decimal := { d with negative := false }

/-- The value with the other sign; zero changes sign too. -/
def neg (d : Decimal) : Decimal := { d with negative := !d.negative }

/-- The integer that the value is without its fraction, if it fits. -/
def toInt64? (d : Decimal) : Option Int64 := Integer.fit? d.truncate.signed

end Decimal

end TreeQuery
