import TreeQuery.Number.Binary

/-!
# The shortest decimal of a double

A double stands for every number that rounds to it. Among those, this module finds the one with the
fewest digits, and among several with as few the one nearest to the double, halfway the larger. For
each number of digits only the two neighbours of the double on that decimal grid have to be tried.
-/

namespace TreeQuery.Binary

/-- How many decimal digits a number has. -/
def digitCount (n : Nat) : Nat := (Nat.toDigits 10 n).length

/-- The exponent `e` with `10 ^ e ≤ num / den < 10 ^ (e + 1)`, for positive numbers. -/
def decimalExponent (num den : Nat) : Int :=
  if den ≤ num then (digitCount (num / den) : Int) - 1
  else -(digitCount ((den + num - 1) / num - 1) : Int)

/-- The numbers that round to a double: from `low / den` to `high / den`, with `value / den`
between them. The ends belong to it when `closed`. -/
structure Rounding where
  /-- The numerator of the lower end. -/
  low : Nat
  /-- The numerator of the double itself. -/
  value : Nat
  /-- The numerator of the upper end. -/
  high : Nat
  /-- The common denominator. -/
  den : Nat
  /-- Whether the ends round to the double. -/
  closed : Bool

/-- The numbers that round to `significand * 2 ^ exponent`. Below a power of two the doubles lie
twice as close. -/
def roundingOf (b : Binary) : Rounding :=
  let below := if b.significand = twoTo 52 ∧ b.exponent ≠ -1074 then 1 else 2
  let scale (n : Nat) : Nat := if 0 ≤ b.exponent then n * twoTo b.exponent.toNat else n
  { low := scale (4 * b.significand - below)
    value := scale (4 * b.significand)
    high := scale (4 * b.significand + 2)
    den := if 0 ≤ b.exponent then 4 else 4 * twoTo (-b.exponent).toNat
    closed := b.significand % 2 == 0 }

/-- Whether `num / den'` rounds to the double. -/
def Rounding.holds (r : Rounding) (num den : Nat) : Bool :=
  if r.closed then decide (r.low * den ≤ num * r.den) && decide (num * r.den ≤ r.high * den)
  else decide (r.low * den < num * r.den) && decide (num * r.den < r.high * den)

/-- The neighbour of the double on the grid of the multiples of `10 ^ place` that rounds to it, if
one does; of two, the nearer, and the larger when both are as near. -/
def Rounding.onGrid? (r : Rounding) (place : Int) : Option Nat :=
  let num := if 0 ≤ place then r.value else r.value * tenTo (-place).toNat
  let den := if 0 ≤ place then r.den * tenTo place.toNat else r.den
  let d := num / den
  let holds (n : Nat) : Bool :=
    if 0 ≤ place then r.holds (n * tenTo place.toNat) 1 else r.holds n (tenTo (-place).toNat)
  let remainder := num % den
  match holds d, holds (d + 1) with
  | true, true =>
    if 2 * remainder < den then some d else some (d + 1)
  | true, false => some d
  | false, true => some (d + 1)
  | false, false => none

/-- The first grid with a hit, trying so many numbers of digits from `digits` on. Seventeen digits are
enough for every double. -/
def Rounding.shortestFrom (r : Rounding) (exponent : Int) (digits : Nat) : Nat → Nat × Int
  | 0 => (r.value, 0)
  | more + 1 =>
    let place := exponent - (digits : Int) + 1
    match r.onGrid? place with
    | some d => (d, place)
    | none => r.shortestFrom exponent (digits + 1) more

/-- Moves the zeros at the end of the digits into the exponent. -/
def dropZeros (d : Nat) (place : Int) : Nat → Nat × Int
  | 0 => (d, place)
  | more + 1 =>
    if d ≠ 0 ∧ d % 10 = 0 then dropZeros (d / 10) (place + 1) more else (d, place)

/-- The shortest decimal of a double other than zero, as `digits * 10 ^ place`. -/
def shortest (b : Binary) : Nat × Int :=
  let r := roundingOf b
  let (d, place) := r.shortestFrom (decimalExponent r.value r.den) 1 17
  dropZeros d place 17

end TreeQuery.Binary
