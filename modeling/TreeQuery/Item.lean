import TreeQuery.Expr
import TreeQuery.Forest
import TreeQuery.Item.Table

/-!
# Items

The values of expressions. A sequence holds no sequences, and a sequence of one item is that item:
`Item.ofList` keeps it so. An error is a value too, which every operator hands on, and `nil` is the
absence of a value, which is different from the empty sequence.
-/

namespace TreeQuery

mutual

/-- A value. -/
inductive Item where
  | integer (value : Int64)
  | decimal (value : Decimal)
  | double (value : Float)
  | string (value : String)
  | boolean (value : Bool)
  | sequence (items : List Item)
  | array (members : List Item)
  | map (entries : List (MapKey × Item))
  | node (node : Node)
  | function (function : FunctionItem)
  | error (error : EvalError)
  | nil

/-- A function as a value. -/
inductive FunctionItem where
  /-- `name#arity`: the function that has this name when it is called. -/
  | named (name : QName) (arity : Nat)
  /-- `function(params) { body }`. It holds on to no variables: its body sees those of its caller. -/
  | inline (params : List Param) (result : Option SequenceType) (body : Expr)
  /-- A call of `base` that waits for arguments. Those of a later call fill the gaps in order. -/
  | waiting (base : Item) (args : List (Option Item))

end

namespace Item

/-- The empty sequence. -/
def empty : Item := .sequence []

/-- The items that a value puts into a sequence. -/
def spliced : Item → List Item
  | .sequence items => items
  | item => [item]

/-- The error that a value is. -/
def error? : Item → Option EvalError
  | .error e => some e
  | _ => none

/-- Whether a value is an error. -/
def isError (item : Item) : Bool := item.error?.isSome

/-- Items that are no sequences as one value: a single item is the value. -/
def ofItems : List Item → Item
  | [item] => item
  | items => .sequence items

/-- The sequence of some values. Sequences among them are spliced in, and the first error among them
takes the place of everything. -/
def ofList (values : List Item) : Item :=
  match values.findSome? error? with
  | some e => .error e
  | none => ofItems (values.flatMap spliced)

/-- A set of nodes as a value. -/
def ofNodes (nodes : List Node) : Item := ofItems (nodes.map .node)

/-- The items of a value. -/
def items : Item → List Item
  | .sequence items => items
  | .nil => []
  | item => [item]

/-- Whether a value has no items. -/
def isEmpty (item : Item) : Bool := item.items.isEmpty

/-- The number of items of a value. -/
def count (item : Item) : Nat := item.items.length

/-- The name of the type of a value. -/
def typeName : Item → String
  | .integer _ => AtomicType.integer.name
  | .decimal _ => AtomicType.decimal.name
  | .double _ => AtomicType.double.name
  | .string _ => AtomicType.string.name
  | .boolean _ => AtomicType.boolean.name
  | .sequence [] => "empty-sequence()"
  | .sequence _ => "item()*"
  | .array _ => "array(*)"
  | .map _ => "map(*)"
  | .node _ => "node()"
  | .function _ => "function(*)"
  | .error _ => "error"
  | .nil => "nil"

/-- The atomic value that an item is. -/
def atomic? : Item → Option Atomic
  | .integer i => some (.integer i)
  | .decimal d => some (.decimal d)
  | .double x => some (.double x)
  | .string s => some (.string s)
  | .boolean b => some (.boolean b)
  | _ => none

/-- An atomic value as an item. An untyped text becomes a string. -/
def ofAtomic : Atomic → Item
  | .integer i => .integer i
  | .decimal d => .decimal d
  | .double x => .double x
  | .string s | .untyped s => .string s
  | .boolean b => .boolean b

/-- The node that an item is. -/
def node? : Item → Option Node
  | .node n => some n
  | _ => none

/-- A result as a value. -/
def ofResult : Except EvalError Item → Item
  | .ok item => item
  | .error e => .error e

/-- A value as a result: an error is a failure. -/
def toResult : Item → Except EvalError Item
  | .error e => .error e
  | item => .ok item

end Item

end TreeQuery
