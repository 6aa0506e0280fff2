import TreeQuery.Number.Conversion

/-!
# Numbers of mixed types

An operation on two numbers brings both to one type first: an integer gives way to a decimal, and
both give way to a double.
-/

namespace TreeQuery

/-- A number of one of the three types. -/
inductive Numeric where
  | integer (value : Int64)
  | decimal (value : Decimal)
  | double (value : Float)

/-- Two numbers of one type. -/
inductive NumericPair where
  | integers (left right : Int64)
  | decimals (left right : Decimal)
  | doubles (left right : Float)

/-- The order of two doubles; there is none if either is not a number. -/
def compareDoubles (x y : Float) : Option Ordering :=
  if x < y then some .lt else if x == y then some .eq else if y < x then some .gt else none

namespace Numeric

/-- The nearest double. -/
def toDouble : Numeric → Float
  | .integer i => doubleOfInt i.toInt
  | .decimal d => d.toDouble
  | .double x => x

/-- Brings two numbers to the lesser type that holds both. -/
def promote : Numeric → Numeric → NumericPair
  | .integer i, .integer j => .integers i j
  | .integer i, .decimal d => .decimals (.ofInt64 i) d
  | .decimal d, .integer j => .decimals d (.ofInt64 j)
  | .decimal d, .decimal e => .decimals d e
  | x, y => .doubles x.toDouble y.toDouble

/-- The order of two numbers; there is none if either is not a number. -/
def compare (x y : Numeric) : Option Ordering :=
  match promote x y with
  | .integers i j => some (Ord.compare i.toInt j.toInt)
  | .decimals d e => some (d.compare e)
  | .doubles x y => compareDoubles x y

end Numeric

end TreeQuery
