import TreeQuery.Number.Integer

/-!
# Errors

An evaluation fails with one cause, and each cause has its text. Reading an expression goes on after
an error, so it yields a list of them.

An evaluation can also stop in the middle, because a sum of decimals that nothing checks does not fit.
This is no error, and it ends the program with all that runs in it: no value holds a crash, nothing goes
on after it, and it is not shown.
-/

namespace TreeQuery

/-- Why an evaluation failed. -/
inductive EvalError where
  /-- A function was called with a number of arguments that it does not take. -/
  | arityMismatch (function : String) (got : Nat) (expected : String)
  /-- An operator does not apply to operands of these types. -/
  | typeMismatch (op left right : String)
  /-- No scope binds the variable. -/
  | undefinedVariable (name : String)
  /-- No function of this name takes so many arguments. -/
  | undefinedFunction (name : String) (arity : Nat)
  /-- The context item was asked for and there is none. -/
  | undefinedContext
  /-- An array has no member at this position. -/
  | indexOutOfRange (index : Int64) (size : Nat)
  /-- A value that is no function was called. -/
  | notCallable (typeName : String)
  /-- A sequence has too many or too few items. -/
  | cardinality (expected : String) (actual : Nat)
  /-- An exact number was divided by zero. -/
  | divisionByZero
  /-- A number does not fit its type. -/
  | overflow (op : String)
  /-- A value has no counterpart in the type it was cast to. -/
  | invalidCast (source target : String)
  /-- A value is not of a kind that can be used here. -/
  | typeError (text : String)
  /-- A text is no qualified name. -/
  | invalidName (text : String)
  /-- A map was given two values for one key. -/
  | duplicateKey (key : String)
  /-- A range has more items than the limit allows. -/
  | rangeTooLarge (length limit : Nat)
  /-- Calls are nested deeper than the limit allows. -/
  | recursionLimit (limit : Nat)
  /-- The expression raised an error of its own. -/
  | user (code text : String)
  /-- The program stopped: a sum of decimals has no place, and nothing checks that it has. -/
  | crash
  deriving DecidableEq

/-- The text that is shown for an error. There is none for a crash, which is not shown. -/
def EvalError.message : EvalError → String
  | .arityMismatch function got expected =>
    "Function '" ++ function ++ "' called with " ++ toString got ++ " arguments, expected " ++ expected
  | .typeMismatch op left right => "Cannot apply '" ++ op ++ "' to " ++ left ++ " and " ++ right
  | .undefinedVariable name => "Variable '$" ++ name ++ "' not found"
  | .undefinedFunction name arity => "Function '" ++ name ++ "#" ++ toString arity ++ "' not found"
  | .undefinedContext => "Context item is required but not set"
  | .indexOutOfRange index size =>
    "Index " ++ Integer.render index ++ " out of bounds (size: " ++ toString size ++ ")"
  | .notCallable typeName => "Value of type " ++ typeName ++ " is not callable"
  | .cardinality expected actual =>
    "Cardinality error: expected " ++ expected ++ ", got " ++ toString actual ++ " items"
  | .divisionByZero => "Division by zero"
  | .overflow op => "Numeric overflow in '" ++ op ++ "'"
  | .invalidCast source target => "Cannot cast " ++ source ++ " to " ++ target
  | .typeError text => "Type error: " ++ text
  | .invalidName text => "Invalid qualified name '" ++ text ++ "'"
  | .duplicateKey key => "Duplicate map key " ++ key
  | .rangeTooLarge length limit =>
    "Range of " ++ toString length ++ " items exceeds the limit of " ++ toString limit
  | .recursionLimit limit => "Call depth limit of " ++ toString limit ++ " exceeded"
  | .user code text => code ++ ": " ++ text
  | .crash => ""

/-- Something that was expected in an expression and not found. -/
structure SyntaxError where
  /-- What was expected. -/
  expected : String
  /-- What was found instead. -/
  got : String
  /-- How many bytes of the expression precede it. -/
  offset : Nat
  deriving DecidableEq

/-- The text that is shown for a syntax error. -/
def SyntaxError.message (e : SyntaxError) : String :=
  "expected " ++ e.expected ++ ", got '" ++ e.got ++ "' at offset " ++ toString e.offset

/-- Why an expression given as text has no value: it does not read, its evaluation failed, or the
program stopped in the middle of it. -/
inductive QueryError where
  /-- The expression has syntax errors. -/
  | parse (expression : String) (errors : List SyntaxError)
  /-- The evaluation failed. -/
  | eval (error : EvalError)
  /-- The program stopped. -/
  | crash

/-- Why an expression has no value if its evaluation has none. -/
def QueryError.ofEval : EvalError → QueryError
  | .crash => .crash
  | e => .eval e

/-- The text that is shown for an expression without a value. There is none for a crash. -/
def QueryError.message : QueryError → String
  | .parse expression errors =>
    "Parse error in '" ++ expression ++ "': " ++ "; ".intercalate (errors.map SyntaxError.message)
  | .eval error => error.message
  | .crash => ""

end TreeQuery
