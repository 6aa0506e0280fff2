import TreeQuery.Number.Binary.Text
import TreeQuery.Number.Decimal.Arithmetic
import TreeQuery.Number.Decimal.Text

/-!
# Between integers, decimals and doubles

An integer becomes the nearest double. A decimal with a fraction becomes a double by way of its two
halves: both are converted, added, and the sum is rounded to the places of the decimal. A double
without a fraction becomes a decimal exactly; the fraction of another is brought into a mantissa of 96
bits, and then no more digits are kept than a significand of 52 bits can vouch for.
-/

namespace TreeQuery

/-- The double nearest to an integer. -/
def doubleOfInt (i : Int) : Float := Binary.toFloat (decide (i < 0)) i.natAbs 1

/-- The double nearest to a natural number. -/
def doubleOfNat (n : Nat) : Float := Binary.toFloat false n 1

/-- A power of a double by repeated squaring, times `result`. -/
def timesPower (base result : Float) (n : Nat) : Float :=
  if n = 0 then result
  else timesPower (base * base) (if n % 2 = 1 then result * base else result) (n / 2)
termination_by n

namespace Decimal

/-- The double of a decimal. -/
def toDouble (d : Decimal) : Float :=
  if d.scale = 0 then doubleOfInt d.signed
  else
    let p := tenTo d.scale
    let whole := doubleOfNat (d.mantissa / p)
    let fraction := doubleOfNat (d.mantissa % p) / doubleOfNat p
    let magnitude :=
      if fraction == 0 then whole
      else
        let q := timesPower 10 1 d.scale
        ((whole + fraction) * q).round / q
    if d.negative then -magnitude else magnitude

/-- Takes halves of a number times a power of ten: an even mantissa is halved, an odd one multiplied
by five, and one that is too large for that loses its last bit. -/
def takeHalves (m : Nat) (place : Int) : Nat → Nat × Int
  | 0 => (m, place)
  | n + 1 =>
    if m % 2 ≠ 0 ∧ m * 5 < twoTo 96 then takeHalves (m * 5) place n
    else takeHalves (m / 2) (place + 1) n

/-- The mantissa without its last digit, five or more rounding up. -/
def dropDigit (m : Nat) : Nat := m / 10 + (if 5 ≤ m % 10 then 1 else 0)

/-- Drops so many digits behind the places that there are. A mantissa that is used up leaves zero
without places. -/
def dropDigits (m : Nat) (scale : Nat) : Nat → Nat × Nat
  | 0 => (m, scale)
  | n + 1 => if m / 10 = 0 then (0, 0) else dropDigits (dropDigit m) scale n

/-- Drops places while the mantissa has more than 52 bits. -/
def dropExcess (m : Nat) : Nat → Nat × Nat
  | 0 => (m, 0)
  | scale + 1 => if twoTo 52 ≤ m then dropExcess (dropDigit m) scale else (m, scale + 1)

/-- The decimal of a finite double other than zero. -/
def ofBinary? (b : Binary) : Option Decimal :=
  if 0 ≤ b.exponent then ofParts? b.negative (b.significand * twoTo b.exponent.toNat) 0
  else
    let (m, place) := takeHalves b.significand b.exponent (-b.exponent).toNat
    let places := (-place).toNat
    let (m, scale) := dropDigits m (min places 28) (places - 28)
    let (m, scale) := dropExcess m scale
    let (m, scale) := stripZeros m scale
    ofParts? b.negative m scale

/-- The decimal of a double, if it is finite and not too large. -/
def ofDouble? (x : Float) : Option Decimal :=
  match Binary.ofFloat? x with
  | none => none
  | some b => if b.significand = 0 then ofParts? b.negative 0 0 else ofBinary? b

end Decimal

end TreeQuery
