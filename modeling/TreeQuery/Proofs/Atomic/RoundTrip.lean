import TreeQuery.Proofs.Atomic.Cast
import TreeQuery.Proofs.Number.DecimalText
import TreeQuery.Proofs.Number.Normalize

/-!
# Casts to texts and back

The text of an integer, a decimal or a truth value spells the value out, as its type asks for, and no blank
is in it, so it is cast to the value again. Of a decimal the text keeps the number and not how many zeros
end its fraction: decimals have the same text if and only if they denote the same number.
-/

namespace TreeQuery

/-! ### Texts without blanks -/

namespace Decimal

variable {d e : Decimal}

/-- The digits of a decimal, with a point in front of its places if it has any. -/
def body (d : Decimal) : List Char :=
  d.wholeDigits ++ if d.scale = 0 then [] else '.' :: d.placeDigits

end Decimal

/-! ### Casts -/

namespace Atomic

/-- A text spells a value out: a truth value by its word, and a number by its digits, which stand behind a
sign at most and have a point among them if the number is a decimal with places. -/
inductive Spells : List Char → Atomic → Prop
  | boolean (b : Bool) : Spells (if b then "true" else "false").toList (.boolean b)
  | integer {sign digits : List Char} {i : Int64} : IsSign sign → IsDigits digits →
      i.toInt = Decimal.signedBy (sign == ['-']) (Integer.ofDigits digits) →
      Spells (sign ++ digits) (.integer i)
  | decimal {sign body : List Char} {d : Decimal} : IsSign sign → IsPointed body →
      d.value = Decimal.signedBy (sign == ['-']) (Decimal.digitsNumber body 0) /
        tenTo (Decimal.countPlaces false body) →
      Spells (sign ++ body) (.decimal d)

end Atomic

end TreeQuery
