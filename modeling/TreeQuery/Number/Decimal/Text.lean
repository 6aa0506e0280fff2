import TreeQuery.Number.Decimal

/-!
# Decimal text

Writing keeps the scale. Reading takes an optional sign, digits and one point, and allows `_` behind
the first digit. The first digit that has no room behind the point decides the rounding alone: the
digits that follow it are read and do not count. Behind a short mantissa with all its places a `_` is
taken for that digit and rounds down.
-/

namespace TreeQuery.Decimal

/-- The digits, with the point in front of the last `scale` of them. -/
def render (d : Decimal) : String :=
  let ds := Nat.toDigits 10 d.mantissa
  let ds := List.replicate (d.scale + 1 - ds.length) '0' ++ ds
  let whole := ds.take (ds.length - d.scale)
  let places := ds.drop (ds.length - d.scale)
  String.ofList ((if d.negative then ['-'] else []) ++ whole ++
    (if places.isEmpty then [] else '.' :: places))

/-- What has been read of a decimal so far. -/
structure Reading where
  /-- The digits, read as one number. -/
  mantissa : Nat
  /-- How many of them stood behind the point. -/
  scale : Nat
  /-- Whether the point has been read. -/
  pointed : Bool
  /-- Whether a digit has been read. -/
  started : Bool

/-- Ends a reading. There must have been a digit, and zero takes no sign. -/
def Reading.finish (r : Reading) (negative : Bool) : Option Decimal :=
  if r.started then ofParts? (negative && r.mantissa != 0) r.mantissa r.scale else none

/-- Ends a reading at a digit that has no room: one of five or more rounds up. If rounding up fills
the mantissa, its last digit is given up, and there must be one behind the point. -/
def Reading.finishRounded (r : Reading) (negative : Bool) (digit : Char) : Option Decimal :=
  if digit.toNat < 0x35 then r.finish negative
  else if r.mantissa + 1 < twoTo 96 then { r with mantissa := r.mantissa + 1 }.finish negative
  else if r.scale = 0 then none
  else { r with mantissa := (r.mantissa + 5) / 10, scale := r.scale - 1 }.finish negative

/-- What may follow the digit that decides the rounding. -/
def isUncounted (c : Char) : Bool := Text.isDigit c || c == '_'

/-- Whether all places are taken and the digits in front of the last make a number that has room for
another digit in 64 bits. -/
def Reading.isShort (r : Reading) : Bool :=
  r.scale == 28 && decide (r.mantissa / 10 < UInt64.size / 10 - UInt8.size + 1)

/-- Reads the rest of a decimal. -/
def Reading.read (negative : Bool) (r : Reading) : List Char → Option Decimal
  | [] => r.finish negative
  | c :: cs =>
    if Text.isDigit c then
      let mantissa := r.mantissa * 10 + (c.toNat - 0x30)
      if mantissa < twoTo 96 ∧ r.scale < 28 then
        { r with mantissa, scale := if r.pointed then r.scale + 1 else 0, started := true }.read
          negative cs
      else if r.pointed && cs.all isUncounted then r.finishRounded negative c
      else none
    else if c == '.' && !r.pointed then { r with pointed := true }.read negative cs
    else if c == '_' && r.started then
      if r.isShort then (if cs.all isUncounted then r.finish negative else none)
      else r.read negative cs
    else none

/-- Reads a decimal. -/
def read? : List Char → Option Decimal
  | '-' :: cs => Reading.read true ⟨0, 0, false, false⟩ cs
  | '+' :: cs => Reading.read false ⟨0, 0, false, false⟩ cs
  | cs => Reading.read false ⟨0, 0, false, false⟩ cs

end TreeQuery.Decimal
