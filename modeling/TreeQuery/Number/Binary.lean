import TreeQuery.Number.Decimal

/-!
# Doubles as exact numbers

A finite double is `± significand * 2 ^ exponent`. This module takes a double apart into these
parts, and finds the double nearest to a fraction (half to even) without leaving whole numbers.
-/

namespace TreeQuery

/-- The exact value `± significand * 2 ^ exponent` of a finite double. -/
structure Binary where
  /-- Whether the sign bit is set. Zero may carry it. -/
  negative : Bool
  /-- The significand, hidden bit included. -/
  significand : Nat
  /-- The exponent of the last bit of the significand. -/
  exponent : Int
  deriving DecidableEq

namespace Binary

/-- The exponent field of the bits of a double. -/
def exponentField (bits : Nat) : Nat := bits / twoTo 52 % twoTo 11

/-- The fraction field of the bits of a double. -/
def fractionField (bits : Nat) : Nat := bits % twoTo 52

/-- The exact value of a double, unless it is infinite or not a number. -/
def ofFloat? (x : Float) : Option Binary :=
  let bits := x.toBits.toNat
  let e := exponentField bits
  let f := fractionField bits
  if e = twoTo 11 - 1 then none
  else if e = 0 then some ⟨decide (twoTo 63 ≤ bits), f, -1074⟩
  else some ⟨decide (twoTo 63 ≤ bits), twoTo 52 + f, (e : Int) - 1075⟩

/-- The value as a fraction without its sign: numerator and denominator. -/
def magnitude (b : Binary) : Nat × Nat :=
  if 0 ≤ b.exponent then (b.significand * twoTo b.exponent.toNat, 1)
  else (b.significand, twoTo (-b.exponent).toNat)

/-- Whether the value is a whole number. -/
def isWhole (b : Binary) : Bool := b.magnitude.1 % b.magnitude.2 == 0

/-- The value without its fraction. -/
def truncated (b : Binary) : Int :=
  let n : Nat := b.magnitude.1 / b.magnitude.2
  if b.negative then -(n : Int) else n

/-- The bits of the double nearest to `num / den`, half to even, without a sign. Values that are too
large have the bits of infinity. -/
def nearestBits (num den : Nat) : Nat :=
  if num = 0 then 0
  else
    let low : Int := (Nat.log2 num : Int) - Nat.log2 den - 53
    let scaled (q : Int) : Nat × Nat :=
      if 0 ≤ q then (num, den * twoTo q.toNat) else (num * twoTo (-q).toNat, den)
    let q := if (scaled low).1 / (scaled low).2 < twoTo 53 then low else low + 1
    let q := max q (-1074)
    let m := Decimal.roundHalfEven (scaled q).1 (scaled q).2
    min ((q + 1074).toNat * twoTo 52 + m) ((twoTo 11 - 1) * twoTo 52)

/-- The double nearest to `± num / den`. -/
def toFloat (negative : Bool) (num den : Nat) : Float :=
  Float.ofBits (UInt64.ofNat ((if negative then twoTo 63 else 0) + nearestBits num den))

/-- The remainder of a division that truncates: exact, with the sign of the dividend. -/
def remainder (x y : Float) : Float :=
  match ofFloat? x, ofFloat? y with
  | some a, some b =>
    if b.significand = 0 then 0.0 / 0.0
    else
      let e := min a.exponent b.exponent
      let m := a.significand * twoTo (a.exponent - e).toNat
      let n := b.significand * twoTo (b.exponent - e).toNat
      let r := m % n
      if 0 ≤ e then toFloat a.negative (r * twoTo e.toNat) 1
      else toFloat a.negative r (twoTo (-e).toNat)
  | some _, none => if y.isNaN then y else x
  | none, _ => 0.0 / 0.0

end Binary

/-- The double that is not a number. -/
def notANumber : Float := 0.0 / 0.0

/-- Positive infinity. -/
def infinity : Float := 1.0 / 0.0

end TreeQuery
