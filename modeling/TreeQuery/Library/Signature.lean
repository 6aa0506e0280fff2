import TreeQuery.Operator.Arithmetic
import TreeQuery.Registry

/-!
# Signatures of functions

How a function is made from its name, the arguments that it takes, and a rule for its value. Most
functions only read the context. A number of arguments that the signature does not allow is an
error, which a call has found before.
-/

namespace TreeQuery

namespace LibraryFunction

/-- The error of a call with a number of arguments that is not allowed. -/
def wrongCount (name : String) (args : List Item) (expected : String) : Except EvalError Item :=
  .error (.arityMismatch name args.length expected)

/-- A function without arguments. -/
def constant (name : String) (f : Context → Except EvalError Item) : LibraryFunction where
  name := name
  least := 0
  most := 0
  run _ args := .reading fun c =>
    match args with
    | [] => f c
    | args => wrongCount name args "0"

/-- A function of one argument. -/
def unary (name : String) (f : Forest → Item → Except EvalError Item) : LibraryFunction where
  name := name
  least := 1
  most := 1
  run _ args := .reading fun c =>
    match args with
    | [x] => f c.forest x
    | args => wrongCount name args "1"

/-- A function of one argument, in whose place the context item is taken if it is left out. -/
def onContext (name : String) (f : Forest → Item → Except EvalError Item) : LibraryFunction where
  name := name
  least := 0
  most := 1
  run _ args := .reading fun c =>
    match args with
    | [] => do f c.forest (← c.contextItem)
    | [x] => f c.forest x
    | args => wrongCount name args "0 or 1"

/-- A function of two arguments. -/
def binary (name : String) (f : Forest → Item → Item → Except EvalError Item) :
    LibraryFunction where
  name := name
  least := 2
  most := 2
  run _ args := .reading fun c =>
    match args with
    | [x, y] => f c.forest x y
    | args => wrongCount name args "2"

/-- A function of one argument and another one that may be left out. -/
def unaryOptional (name : String) (f : Forest → Item → Option Item → Except EvalError Item) :
    LibraryFunction where
  name := name
  least := 1
  most := 2
  run _ args := .reading fun c =>
    match args with
    | [x] => f c.forest x none
    | [x, y] => f c.forest x (some y)
    | args => wrongCount name args "1 or 2"

/-- A function of two arguments and another one that may be left out. -/
def binaryOptional (name : String)
    (f : Forest → Item → Item → Option Item → Except EvalError Item) : LibraryFunction where
  name := name
  least := 2
  most := 3
  run _ args := .reading fun c =>
    match args with
    | [x, y] => f c.forest x y none
    | [x, y, z] => f c.forest x y (some z)
    | args => wrongCount name args "2 or 3"

/-- A function of three arguments. -/
def ternary (name : String) (f : Forest → Item → Item → Item → Except EvalError Item) :
    LibraryFunction where
  name := name
  least := 3
  most := 3
  run _ args := .reading fun c =>
    match args with
    | [x, y, z] => f c.forest x y z
    | args => wrongCount name args "3"

/-- A function of so many arguments that calls one of them. -/
def calling (name : String) (arity : Nat) (f : Caller → List Item → Eval Item) :
    LibraryFunction where
  name := name
  least := arity
  most := arity
  run := f

end LibraryFunction

/-! ### Arguments -/

namespace Item

/-- The text of an argument; nothing has the empty text. -/
def textArgument (forest : Forest) (item : Item) : Except EvalError String := do
  return (← item.atomizeOptional forest).elim "" Atomic.text

/-- The number that an argument is, or nothing. An untyped text is read as a double. -/
def numberArgument (forest : Forest) (function : String) (item : Item) :
    Except EvalError (Option Numeric) := do
  match ← item.atomizeOptional forest with
  | none => return none
  | some a =>
    match a with
    | .string _ | .boolean _ =>
      .error (.typeError (function ++ "() expects a number, got " ++ a.typeName))
    | a => return some (← a.toNumeric function a)

/-- The number that an argument must be, as a double. -/
def doubleArgument (forest : Forest) (function : String) (item : Item) : Except EvalError Float := do
  match ← item.numberArgument forest function with
  | some x => return x.toDouble
  | none => .error (.cardinality "exactly one number" 0)

/-- The entries of an argument that must be a map. -/
def mapArgument (function : String) : Item → Except EvalError (Table Item)
  | .map entries => .ok entries
  | other => .error (.typeError (function ++ "() expects a map, got " ++ other.typeName))

/-- The members of an argument that must be an array. -/
def arrayArgument (function : String) : Item → Except EvalError (List Item)
  | .array members => .ok members
  | other => .error (.typeError (function ++ "() expects an array, got " ++ other.typeName))

/-- The key that an argument must be. -/
def keyArgument (forest : Forest) (item : Item) : Except EvalError MapKey := do
  match ← item.atomizeOptional forest with
  | some a => return .ofAtomic a
  | none => .error (.cardinality "exactly one key" 0)

/-- The node that an argument is, or nothing. -/
def nodeArgument (function : String) (item : Item) : Except EvalError (Option Node) :=
  match item.items with
  | [] => .ok none
  | [.node n] => .ok (some n)
  | [other] => .error (.typeError (function ++ "() expects a node, got " ++ other.typeName))
  | items => .error (.cardinality "zero or one node" items.length)

/-- A count as a value. -/
def ofNat (n : Nat) : Item := .integer (Int64.ofNat n)

end Item

/-- The whole number nearest to a double; of two that are equally near, the greater one. -/
def roundHalfUp (x : Float) : Float :=
  let rounded := x.round
  if (rounded - x).abs == 0.5 then x.ceil else rounded

/-- The items whose positions, counted from one, are not below `start` and below `stop`. -/
def between {α : Type} (start stop : Float) (items : List α) : List α :=
  (items.zipIdx 1).filterMap fun (item, position) =>
    let p := doubleOfNat position
    if start ≤ p && p < stop then some item else none

/-- The bounds of a part that starts at `start` and has the length that is given, if one is. -/
def partBounds (forest : Forest) (function : String) (start : Item) (length : Option Item) :
    Except EvalError (Float × Float) := do
  let first := roundHalfUp (← start.doubleArgument forest function)
  match length with
  | none => return (first, infinity)
  | some length => return (first, first + roundHalfUp (← length.doubleArgument forest function))

end TreeQuery
