import TreeQuery.Item.Atomize
import TreeQuery.Number.Decimal.Arithmetic
import TreeQuery.Operator

/-!
# Arithmetic

Two numbers are brought to one type and computed with there. Integers and decimals are exact: a
result that does not fit is an error, as is a division by zero. Doubles overflow to infinity. A
division of integers has a decimal as its result.
-/

namespace TreeQuery

namespace ArithmeticOp

/-- Whether an operation divides. -/
def divides : ArithmeticOp → Bool
  | .div | .idiv | .mod => true
  | _ => false

/-- A result that may not fit its type. -/
def orOverflow {α : Type} (op : ArithmeticOp) (result : Option α) : Except EvalError α :=
  match result with
  | some x => .ok x
  | none => .error (.overflow op.symbol)

/-- Computes with decimals. -/
def onDecimals (op : ArithmeticOp) (x y : Decimal) : Except EvalError Atomic :=
  if op.divides && y.isZero then .error .divisionByZero
  else
    match op with
    | .add => op.orOverflow ((x.add y).map .decimal)
    | .sub => op.orOverflow ((x.sub y).map .decimal)
    | .mul => op.orOverflow ((x.mul y).map .decimal)
    | .div => op.orOverflow ((x.div y).map .decimal)
    | .mod => op.orOverflow ((x.rem y).map .decimal)
    | .idiv => op.orOverflow (((x.div y).bind Decimal.toInt64?).map .integer)

/-- Computes with integers. -/
def onIntegers (op : ArithmeticOp) (i j : Int64) : Except EvalError Atomic :=
  let exact (result : Int) := op.orOverflow ((Integer.fit? result).map .integer)
  if op.divides && j == 0 then .error .divisionByZero
  else
    match op with
    | .add => exact (i.toInt + j.toInt)
    | .sub => exact (i.toInt - j.toInt)
    | .mul => exact (i.toInt * j.toInt)
    | .idiv => exact (i.toInt.tdiv j.toInt)
    | .mod => exact (i.toInt.tmod j.toInt)
    | .div => op.onDecimals (.ofInt64 i) (.ofInt64 j)

/-- Computes with doubles. Only a division to an integer can fail. -/
def onDoubles (op : ArithmeticOp) (x y : Float) : Except EvalError Atomic :=
  match op with
  | .add => .ok (.double (x + y))
  | .sub => .ok (.double (x - y))
  | .mul => .ok (.double (x * y))
  | .div => .ok (.double (x / y))
  | .mod => .ok (.double (Binary.remainder x y))
  | .idiv =>
    if y == 0 then .error .divisionByZero
    else op.orOverflow ((Atomic.integerOfDouble? (x / y)).map .integer)

end ArithmeticOp

namespace Atomic

/-- Whether a value takes part in arithmetic. -/
def isOperand : Atomic → Bool
  | .string _ | .boolean _ => false
  | _ => true

/-- Computes with two values. -/
def arithmetic (op : ArithmeticOp) (a b : Atomic) : Except EvalError Atomic :=
  if a.isOperand && b.isOperand then do
    let x ← a.toNumeric op.symbol b
    let y ← b.toNumeric op.symbol a
    match x.promote y with
    | .integers i j => op.onIntegers i j
    | .decimals d e => op.onDecimals d e
    | .doubles x y => op.onDoubles x y
  else .error (.typeMismatch op.symbol a.typeName b.typeName)

/-- A value with a sign in front of it. -/
def withSign (sign : Sign) (a : Atomic) : Except EvalError Atomic :=
  if a.isOperand then do
    match sign, ← a.toNumeric sign.symbol a with
    | .plus, x => .ok (ofNumeric x)
    | .minus, .integer i =>
      match Integer.fit? (-i.toInt) with
      | some j => .ok (.integer j)
      | none => .error (.overflow sign.symbol)
    | .minus, .decimal d => .ok (.decimal d.neg)
    | .minus, .double x => .ok (.double (-x))
  else
    .error (.typeError ("unary '" ++ sign.symbol ++ "' cannot be applied to " ++ a.typeName))

end Atomic

namespace Item

/-- A result that depends on two operands: an operand that is an error is the result, the left one
before the right one. -/
def onOperands (left right : Item) (result : Except EvalError Item) : Except EvalError Item :=
  match left.error?, right.error? with
  | some e, _ => .error e
  | none, some e => .error e
  | none, none => result

/-- A result that depends on one atomic value of each operand. It is empty if either has none. -/
def onAtomicOperands (forest : Forest) (left right : Item)
    (result : Atomic → Atomic → Except EvalError Item) : Except EvalError Item :=
  onOperands left right do
    match ← left.atomizeOptional forest, ← right.atomizeOptional forest with
    | some a, some b => result a b
    | _, _ => .ok empty

/-- Computes with two operands. -/
def arithmetic (forest : Forest) (op : ArithmeticOp) (left right : Item) : Except EvalError Item :=
  onAtomicOperands forest left right fun a b => (a.arithmetic op b).map ofAtomic

/-- An operand with a sign in front of it. -/
def withSign (forest : Forest) (sign : Sign) (operand : Item) : Except EvalError Item := do
  match ← operand.atomizeOptional forest with
  | some a => (a.withSign sign).map ofAtomic
  | none => .ok empty

end Item

end TreeQuery
