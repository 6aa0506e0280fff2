import TreeQuery.Library.Signature

/-!
# Functions on numbers
-/

namespace TreeQuery.Library

/-- The number that a value can be read as. Whatever cannot be read is not a number. -/
def readNumber (value : Option Atomic) : Float := (value.bind Atomic.toDouble?).getD notANumber

/-- The values that are aggregated, with untyped texts read as doubles. -/
def aggregated (forest : Forest) (item : Item) (check : Atomic → Except EvalError Atomic) :
    Except EvalError (List Atomic) := do
  (← item.atomize forest).mapM fun a =>
    match a with
    | .untyped _ => a.cast .double
    | a => check a

/-- A value that must be a number to be added up. -/
def summand (function : String) (a : Atomic) : Except EvalError Atomic :=
  if a.isOperand then .ok a
  else .error (.typeError (function ++ "() expects numbers, got " ++ a.typeName))

/-- The sum of values, if there are any. -/
def total : List Atomic → Except EvalError (Option Atomic)
  | [] => .ok none
  | a :: as => (as.foldlM (Atomic.arithmetic .add) a).map some

/-- The value of `values` that is furthest in one direction, or `best`. The first value that is not a
number ends the search. -/
def extremeFrom (function : String) (direction : Ordering) (best : Option Atomic) :
    List Atomic → Except EvalError Item
  | [] => .ok (best.elim .empty .ofAtomic)
  | a :: as =>
    if a.isNotANumber then .ok (.double notANumber)
    else
      match best with
      | none => extremeFrom function direction (some a) as
      | some b =>
        match a.order function b with
        | .error e => .error e
        | .ok o =>
          extremeFrom function direction (some (if o == some direction then a else b)) as

/-- The value that is furthest in one direction. -/
def extreme (function : String) (direction : Ordering) : LibraryFunction :=
  .unary function fun forest x => do extremeFrom function direction none (← aggregated forest x .ok)

/-- The result of a rule for integers, which is an overflow where there is none. -/
def checked (function : String) : Option Int64 → Except EvalError Int64
  | some i => .ok i
  | none => .error (.overflow function)

/-- The result of a rule for decimals, which nothing checks: where there is none the program stops. -/
def unchecked : Option Decimal → Except EvalError Decimal
  | some d => .ok d
  | none => .error .crash

/-- A function on numbers that keeps their type. -/
def onNumber (function : String) (onInteger : Int64 → Option Int64)
    (onDecimal : Decimal → Option Decimal) (onDouble : Float → Float) : LibraryFunction :=
  .unary function fun forest x => do
    match ← x.numberArgument forest function with
    | none => return .empty
    | some (.integer i) => return .integer (← checked function (onInteger i))
    | some (.decimal d) => return .decimal (← unchecked (onDecimal d))
    | some (.double x) => return .double (onDouble x)

/-- The double nearest to the circumference of a circle by its diameter. -/
def circleConstant : Float := Float.ofBits 0x400921FB54442D18

/-- Functions on numbers. -/
def numbers : List LibraryFunction := [
  .onContext "number" fun forest x => return .double (readNumber (← x.atomizeOptional forest)),
  .unaryOptional "sum" fun forest x zero => do
    match ← total (← aggregated forest x (summand "sum")) with
    | some a => return .ofAtomic a
    | none => return zero.getD (.integer 0),
  .unary "avg" fun forest x => do
    let values ← aggregated forest x (summand "avg")
    match ← total values with
    | some a => return .ofAtomic (← a.arithmetic .div (.integer (Int64.ofNat values.length)))
    | none => return .empty,
  extreme "min" .lt,
  extreme "max" .gt,
  onNumber "abs" (fun i => Integer.fit? i.toInt.natAbs) (fun d => some d.abs) Float.abs,
  onNumber "floor" some (fun d => some d.floor) Float.floor,
  onNumber "ceiling" some (fun d => some d.ceiling) Float.ceil,
  onNumber "round" some Decimal.round roundHalfUp,
  .unary "math:sqrt" fun forest x => do
    if x.isEmpty then return .empty
    else return .double (← x.doubleArgument forest "math:sqrt").sqrt,
  .constant "math:pi" fun _ => .ok (.double circleConstant)]

end TreeQuery.Library
