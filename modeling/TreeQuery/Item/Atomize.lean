import TreeQuery.Item

/-!
# Atomic values of items

What operators and functions see of an item: the atomic values in it, its truth value, its text. A
node counts as its text, and an array as its members; maps and functions have no atomic values.
-/

namespace TreeQuery.Item

mutual

/-- Puts the atomic values of an item behind others. -/
def atomizeInto (forest : Forest) (found : Array Atomic) : Item → Except EvalError (Array Atomic)
  | .integer i => .ok (found.push (.integer i))
  | .decimal d => .ok (found.push (.decimal d))
  | .double x => .ok (found.push (.double x))
  | .string s => .ok (found.push (.string s))
  | .boolean b => .ok (found.push (.boolean b))
  | .sequence items => atomizeAll forest found items
  | .array members => atomizeAll forest found members
  | .node n => .ok (found.push (.untyped (n.text forest)))
  | .nil => .ok found
  | .error e => .error e
  | .map entries => .error (.typeError ("cannot atomize " ++ (Item.map entries).typeName))
  | .function f => .error (.typeError ("cannot atomize " ++ (Item.function f).typeName))

/-- Puts the atomic values of some items behind others. -/
def atomizeAll (forest : Forest) (found : Array Atomic) : List Item → Except EvalError (Array Atomic)
  | [] => .ok found
  | item :: items =>
    match atomizeInto forest found item with
    | .error e => .error e
    | .ok found => atomizeAll forest found items

end

/-- The atomic values of an item. -/
def atomize (forest : Forest) (item : Item) : Except EvalError (List Atomic) :=
  (atomizeInto forest #[] item).map Array.toList

/-- The atomic value of an item that has one at most. -/
def atomizeOptional (forest : Forest) (item : Item) : Except EvalError (Option Atomic) :=
  match item.atomize forest with
  | .error e => .error e
  | .ok [] => .ok none
  | .ok [a] => .ok (some a)
  | .ok atoms => .error (.cardinality "zero or one item" atoms.length)

/-- The truth value of an item, as conditions and predicates see it. -/
def truth : Item → Except EvalError Bool
  | .boolean b => .ok b
  | .string s => .ok !s.isEmpty
  | .integer i => .ok (i != 0)
  | .decimal d => .ok !d.isZero
  | .double x => .ok (Atomic.doubleHolds x)
  | .node _ => .ok true
  | .nil => .ok false
  | .sequence [] => .ok false
  | .sequence (.node _ :: _) => .ok true
  | .sequence _ =>
    .error (.typeError "effective boolean value of a sequence of more than one atomic value")
  | .error e => .error e
  | item => .error (.typeError ("no effective boolean value for " ++ item.typeName))

/-- The text of an item. -/
def text (forest : Forest) (item : Item) : Except EvalError String :=
  match item with
  | .node n => .ok (n.text forest)
  | .nil => .ok ""
  | .error e => .error e
  | .sequence [] => .ok ""
  | .sequence items => .error (.cardinality "zero or one item" items.length)
  | item =>
    match item.atomic? with
    | some a => .ok a.text
    | none => .error (.typeError ("no string value for " ++ item.typeName))

end TreeQuery.Item
