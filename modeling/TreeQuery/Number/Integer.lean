import TreeQuery.Number.Power
import TreeQuery.Text.Letter

/-!
# Integers of 64 bits

The integers of the language are those that fit 64 bits. An operation that leaves them has no
result: it is computed exactly and then brought back by `fit?`.
-/

namespace TreeQuery.Integer

/-- The 64-bit integer with the value `i`, if there is one. -/
def fit? (i : Int) : Option Int64 :=
  if Int64.minValue.toInt ≤ i ∧ i ≤ Int64.maxValue.toInt then some (Int64.ofInt i) else none

/-- The number that a list of ASCII digits denotes. -/
def ofDigits (ds : List Char) : Nat := Nat.ofDigitChars 10 ds 0

/-- Reads an unsigned number: one ASCII digit or more, and nothing else. -/
def readNat? (cs : List Char) : Option Nat :=
  if cs.isEmpty || !cs.all Text.isDigit then none else some (ofDigits cs)

/-- Reads an optional sign and one ASCII digit or more, if the number fits. -/
def read? : List Char → Option Int64
  | '-' :: cs => (readNat? cs).bind fun n => fit? (-n)
  | '+' :: cs => (readNat? cs).bind fun n => fit? n
  | cs => (readNat? cs).bind fun n => fit? n

/-- The digits of an integer, after a minus sign if it is negative. -/
def render (i : Int64) : String := toString i.toInt

/-- What fits has the value asked for. -/
theorem toInt_of_fit? {i : Int} {x : Int64} (h : fit? i = some x) : x.toInt = i := by
  simp only [fit?, Option.ite_none_right_eq_some, Option.some.injEq] at h
  obtain ⟨⟨hl, hu⟩, rfl⟩ := h
  exact Int64.toInt_ofInt_of_le hl (Int.lt_add_one_of_le hu)

/-- The value of every 64-bit integer fits. -/
@[simp] theorem fit?_toInt (x : Int64) : fit? x.toInt = some x := by
  rw [fit?, if_pos ⟨Int64.le_toInt x, Int.le_of_lt_add_one (Int64.toInt_lt x)⟩, Int64.ofInt_toInt]

/-- No 64-bit integer is larger than `2 ^ 63` in magnitude. -/
theorem natAbs_le (x : Int64) : x.toInt.natAbs ≤ twoTo 63 := by
  have hl := Int64.le_toInt x
  have hu := Int64.toInt_lt x
  have hp : twoTo 63 = 9223372036854775808 := rfl
  omega

end TreeQuery.Integer
