import TreeQuery.Number.Decimal.Quotient
import TreeQuery.Number.Decimal.Remainder

/-!
# Decimal arithmetic

Sums, products and quotients are computed exactly and rounded once. There is no result when the whole
part does not fit a mantissa. A result that is zero has no sign, unless an operand was zero or the
product of long mantissas was rounded to it.
-/

namespace TreeQuery.Decimal

/-- The sum, with as many places as the longer operand. Adding zero changes nothing, not even the
scale of the other operand. -/
def add (a b : Decimal) : Option Decimal :=
  if a.isZero then some b
  else if b.isZero then some a
  else
    let scale := max a.scale b.scale
    let sum := a.signed * tenTo (scale - a.scale) + b.signed * tenTo (scale - b.scale)
    nearest? (decide (sum < 0)) sum.natAbs (tenTo scale) scale

/-- The difference. -/
def sub (a b : Decimal) : Option Decimal :=
  if a.isZero && b.isZero then some b else add a b.neg

/-- Whether all digits fit in one word. -/
def isShort (d : Decimal) : Bool := d.mantissa < twoTo 32

/-- The product, with the places of both operands. One that rounds to zero keeps its sign, unless both
operands are short. With more than 47 places a product of short operands is always too small for a
decimal, and is a zero without places. -/
def mul (a b : Decimal) : Option Decimal :=
  let negative := a.negative != b.negative
  let places := a.scale + b.scale
  let product := nearest? negative (a.mantissa * b.mantissa) (tenTo places) (min places 28)
  if a.isZero || b.isZero then some zero
  else if a.isShort && b.isShort then
    if 47 < places then some zero else product
  else product.map fun d => { d with negative }

/-- The quotient, with the places with which it comes out. If the mantissas alone do not divide, zeros
at its end are dropped. -/
def div (a b : Decimal) : Option Decimal :=
  if a.isZero then some zero
  else
    let quotient := nearest? (a.negative != b.negative) (a.mantissa * tenTo b.scale)
      (b.mantissa * tenTo a.scale) (quotientPlaces a b)
    if a.mantissa % b.mantissa = 0 then quotient else quotient.map dropZeroGroups

/-- The remainder of the division, which has the sign of the dividend. A dividend that is less than the
divisor is left as it is, and one of the same size leaves a zero without places. -/
def rem (a b : Decimal) : Option Decimal :=
  if a.isZero then some zero
  else
    let scale := max a.scale b.scale
    let m := a.mantissa * tenTo (scale - a.scale)
    let d := b.mantissa * tenTo (scale - b.scale)
    if m < d then some a
    else if m = d then some zero
    else
      let r := remainder m d
      ofParts? (a.negative && r != 0) r scale

/-- The floor of the value plus one half. The sum is rounded like every other, and there is no result
if it does not fit. -/
def round (d : Decimal) : Option Decimal :=
  (add d ⟨false, 5, 1, by decide, by decide⟩).map floor

end TreeQuery.Decimal
