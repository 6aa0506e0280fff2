import TreeQuery.Number.Decimal
import TreeQuery.Operator
import TreeQuery.SequenceType

/-!
# Expressions

The expressions of the language, as they are evaluated: abbreviations are spelled out, and sequences
written inside sequences are spliced.
-/

namespace TreeQuery

/-- A value written out. -/
inductive Literal where
  | integer (value : Int64)
  | decimal (value : Decimal)
  | double (value : Float)
  | string (value : String)

/-- A parameter of a function, with the type that its argument must have. -/
structure Param where
  /-- The variable that the argument is bound to. -/
  name : QName
  /-- The type of the argument, if it is checked. -/
  type : Option SequenceType
  deriving DecidableEq

mutual

/-- An expression. -/
inductive Expr where
  | literal (value : Literal)
  | var (name : QName)
  /-- `.`: the context item. -/
  | contextItem
  /-- Expressions between commas. -/
  | sequence (members : List Expr)
  | binary (op : BinaryOp) (left right : Expr)
  | signed (sign : Sign) (operand : Expr)
  /-- `/` alone: the root of the context node. -/
  | root
  /-- `/relative`: a path that starts at the root. -/
  | rootPath (relative : Expr)
  /-- `left/right`: `right` for every node of `left`. -/
  | path (left right : Expr)
  /-- `axis::test[predicate]…` from the context node. -/
  | step (axis : Axis) (test : NodeTest) (predicates : List Expr)
  /-- An expression with predicates, calls and lookups behind it. -/
  | chain (base : Expr) (links : List Link)
  | call (name : QName) (args : List Argument)
  /-- `name#arity`: a function by its name. -/
  | functionRef (name : QName) (arity : Nat)
  | inlineFunction (params : List Param) (result : Option SequenceType) (body : Expr)
  | forEach (bindings : List Binding) (body : Expr)
  | letIn (bindings : List Binding) (body : Expr)
  | quantified (quantifier : Quantifier) (bindings : List Binding) (condition : Expr)
  | ifThenElse (condition whenTrue whenFalse : Expr)
  | mapOf (entries : List Entry)
  /-- `[a, b]`: an array with one member for every expression. -/
  | squareArray (members : List Expr)
  /-- `array { e }`: an array with one member for every item of `e`. -/
  | curlyArray (content : Expr)
  /-- `base => name(args)`: the function of a name, with `base` as its first argument. -/
  | arrowNamed (base : Expr) (name : QName) (args : List Argument)
  /-- `base => target(args)`: the function that is the value of `target`. -/
  | arrowDynamic (base target : Expr) (args : List Argument)
  /-- `?key`: a lookup in the context item. -/
  | lookup (key : LookupKey)
  | instanceOf (operand : Expr) (type : SequenceType)
  | treatAs (operand : Expr) (type : SequenceType)
  | castableAs (operand : Expr) (target : SingleType)
  | castAs (operand : Expr) (target : SingleType)

/-- A variable and the expression that gives its value. -/
structure Binding where
  /-- The variable. -/
  name : QName
  /-- Its value, or the sequence that its values are taken from. -/
  value : Expr

/-- An entry of a map. -/
structure Entry where
  /-- The key. -/
  key : Expr
  /-- The value. -/
  value : Expr

/-- An argument of a call. -/
inductive Argument where
  | value (e : Expr)
  /-- `?`: an argument that a later call supplies. -/
  | placeholder

/-- What is looked up in a map or an array. -/
inductive LookupKey where
  | name (name : String)
  | index (index : Int64)
  | computed (e : Expr)
  /-- `*`: every value or member. -/
  | all

/-- What may stand behind an expression. -/
inductive Link where
  /-- `[e]`: keep the items that satisfy `e`. -/
  | predicate (e : Expr)
  /-- `(args)`: call the value. -/
  | call (args : List Argument)
  /-- `?key`: look a key up in the value. -/
  | lookup (key : LookupKey)

end

namespace Expr

/-- The members of a sequence, or the expression alone. -/
def members : Expr → List Expr
  | .sequence es => es
  | e => [e]

/-- A sequence of expressions. Sequences among them are spliced in, one level deep, and a sequence
of one is its member. -/
def ofMembers (es : List Expr) : Expr :=
  match es.flatMap members with
  | [e] => e
  | flat => .sequence flat

/-- `()` -/
def empty : Expr := .sequence []

/-- `descendant-or-self::node()`, which `//` stands for. -/
def descendantOrSelf : Expr := .step .descendantOrSelf (.kind .anyNode) []

/-- Puts a link behind an expression; a chain becomes longer. -/
def link : Expr → Link → Expr
  | .chain base links, l => .chain base (links ++ [l])
  | base, l => .chain base [l]

end Expr

end TreeQuery
