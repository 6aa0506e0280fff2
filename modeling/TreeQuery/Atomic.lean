import TreeQuery.AtomicType
import TreeQuery.Error
import TreeQuery.Number.Numeric

/-!
# Atomic values

A single value without parts. The text of a node has no type of its own: it stays `untyped` until
an operator decides what to read it as.
-/

namespace TreeQuery

/-- An atomic value. -/
inductive Atomic where
  | integer (value : Int64)
  | decimal (value : Decimal)
  | double (value : Float)
  | string (value : String)
  | boolean (value : Bool)
  | untyped (text : String)

/-- The word for a truth value. -/
def renderBoolean (b : Bool) : String := if b then "true" else "false"

namespace Atomic

/-- The type of a value. -/
def type : Atomic → AtomicType
  | .integer _ => .integer
  | .decimal _ => .decimal
  | .double _ => .double
  | .string _ => .string
  | .boolean _ => .boolean
  | .untyped _ => .untyped

/-- The name of the type of a value. -/
def typeName (a : Atomic) : String := a.type.name

/-- The text of a value. Decimals that denote the same number have the same text. -/
def text : Atomic → String
  | .integer i => Integer.render i
  | .decimal d => d.normalize.render
  | .double x => renderDouble x
  | .string s => s
  | .boolean b => renderBoolean b
  | .untyped s => s

/-- A number as a value. -/
def ofNumeric : Numeric → Atomic
  | .integer i => .integer i
  | .decimal d => .decimal d
  | .double x => .double x

/-- The number that a value is. -/
def number? : Atomic → Option Numeric
  | .integer i => some (.integer i)
  | .decimal d => some (.decimal d)
  | .double x => some (.double x)
  | _ => none

/-- Whether a value is a number. -/
def isNumeric (a : Atomic) : Bool := a.number?.isSome

/-- Whether a value is the double that is not a number. -/
def isNotANumber : Atomic → Bool
  | .double x => x.isNaN
  | _ => false

/-- Whether a value belongs to a type as it stands. Every integer is a decimal. -/
def hasType (a : Atomic) : AtomicType → Bool
  | .anyAtomic => true
  | .numeric => a.isNumeric
  | .decimal => a.type == .integer || a.type == .decimal
  | t => a.type == t

/-- The order of two values that can be compared: two numbers, two texts, two truth values. There is
no order, and no error either, if one of them is not a number. `symbol` is the operator that asks. -/
def order (symbol : String) (a b : Atomic) : Except EvalError (Option Ordering) :=
  match a.number?, b.number? with
  | some x, some y => .ok (x.compare y)
  | _, _ =>
    match a, b with
    | .string s, .string t | .string s, .untyped t
    | .untyped s, .string t | .untyped s, .untyped t => .ok (some (compare s t))
    | .boolean p, .boolean q => .ok (some (compare p q))
    | _, _ => .error (.typeMismatch symbol a.typeName b.typeName)

/-- Whether two values count as one where values are collected: a value that is not a number is the
same as another, and values that cannot be compared are different. -/
def same (a b : Atomic) : Bool :=
  match order "eq" a b with
  | .ok (some o) => o == .eq
  | .ok none => a.isNotANumber && b.isNotANumber
  | .error _ => false

end Atomic

end TreeQuery
