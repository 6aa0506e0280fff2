import TreeQuery.Atomic

/-!
# Casts

A cast finds the value of another type that corresponds to a value. Texts are read as the type
writes them, with blanks around them; a number loses what its new type cannot hold behind the point,
but never in front of it.
-/

namespace TreeQuery.Atomic

/-- The truth value of a number: zero and what is not a number are false. -/
def doubleHolds (x : Float) : Bool := !(x == 0) && !x.isNaN

/-- Reads a truth value. -/
def readBoolean? (text : String) : Option Bool :=
  let s := Text.trimmed text
  if s = "true" ∨ s = "1" then some true
  else if s = "false" ∨ s = "0" then some false
  else none

/-- Reads an integer. -/
def readInteger? (text : String) : Option Int64 := Integer.read? (Text.trim text.toList)

/-- Reads a decimal, which has no exponent. -/
def readDecimal? (text : String) : Option Decimal :=
  let cs := Text.trim text.toList
  if cs.any isExponentMark then none else Decimal.read? cs

/-- The integer that a double is without its fraction, if it fits. -/
def integerOfDouble? (x : Float) : Option Int64 :=
  (Binary.ofFloat? x).bind fun b => Integer.fit? b.truncated

/-- The truth value that corresponds to a value. -/
def toBoolean? : Atomic → Option Bool
  | .boolean b => some b
  | .integer i => some (i != 0)
  | .decimal d => some !d.isZero
  | .double x => some (doubleHolds x)
  | .string s | .untyped s => readBoolean? s

/-- The integer that corresponds to a value. -/
def toInteger? : Atomic → Option Int64
  | .integer i => some i
  | .decimal d => d.toInt64?
  | .double x => integerOfDouble? x
  | .boolean b => some (if b then 1 else 0)
  | .string s | .untyped s => readInteger? s

/-- The decimal that corresponds to a value. -/
def toDecimal? : Atomic → Option Decimal
  | .integer i => some (.ofInt64 i)
  | .decimal d => some d
  | .double x => Decimal.ofDouble? x
  | .boolean b => some (.ofInt64 (if b then 1 else 0))
  | .string s | .untyped s => readDecimal? s

/-- The double that corresponds to a value. -/
def toDouble? : Atomic → Option Float
  | .integer i => some (doubleOfInt i.toInt)
  | .decimal d => some d.toDouble
  | .double x => some x
  | .boolean b => some (if b then 1 else 0)
  | .string s | .untyped s => readDouble? s

/-- The value of a type that corresponds to a value, if there is one. -/
def castTo? (a : Atomic) : AtomicType → Option Atomic
  | .anyAtomic => some a
  | .string => some (.string a.text)
  | .untyped => some (.untyped a.text)
  | .boolean => a.toBoolean?.map .boolean
  | .integer => a.toInteger?.map .integer
  | .decimal => a.toDecimal?.map .decimal
  | .double | .numeric => a.toDouble?.map .double

/-- Casts a value to a type. -/
def cast (a : Atomic) (target : AtomicType) : Except EvalError Atomic :=
  match a.castTo? target with
  | some b => .ok b
  | none => .error (.invalidCast a.typeName target.name)

/-- The number that an operator reads a value as: a number as it is, an untyped text as a double,
and nothing else. -/
def toNumeric (symbol : String) (a other : Atomic) : Except EvalError Numeric :=
  match a with
  | .integer i => .ok (.integer i)
  | .decimal d => .ok (.decimal d)
  | .double x => .ok (.double x)
  | .untyped s =>
    match readDouble? s with
    | some x => .ok (.double x)
    | none => .error (.invalidCast a.typeName AtomicType.double.name)
  | _ => .error (.typeMismatch symbol a.typeName other.typeName)

end TreeQuery.Atomic
