import TreeQuery.Operator.Arithmetic

/-!
# Comparisons

A value comparison looks at one value of each operand. A general comparison holds if it holds of any
value of one operand and any of the other, and reads an untyped text as the type of its partner. A
node comparison asks for identity or for document order.
-/

namespace TreeQuery

/-- Whether a relation holds of two values in this order. Values without an order are different, and
no other relation holds of them. -/
def Relation.holds (relation : Relation) (order : Option Ordering) : Bool :=
  match order with
  | none => relation == .ne
  | some o =>
    match relation with
    | .eq => o == .eq
    | .ne => o != .eq
    | .lt => o == .lt
    | .le => o != .gt
    | .gt => o == .gt
    | .ge => o != .lt

/-- Whether a relation holds of two nodes. -/
def NodeRelation.holds (forest : Forest) (relation : NodeRelation) (a b : Node) : Bool :=
  match relation with
  | .is => a == b
  | .precedes => a.compareOrder forest b == .lt
  | .follows => a.compareOrder forest b == .gt

namespace Atomic

/-- The type that an untyped text is read as next to a value. -/
def partnerType : Atomic → AtomicType
  | .integer _ | .decimal _ | .double _ => .double
  | .boolean _ => .boolean
  | .string _ | .untyped _ => .string

/-- Two values as a general comparison reads them. -/
def readAsPartners (a b : Atomic) : Except EvalError (Atomic × Atomic) :=
  match a, b with
  | .untyped _, .untyped _ => .ok (a, b)
  | .untyped _, _ => (a.cast b.partnerType).map fun a => (a, b)
  | _, .untyped _ => (b.cast a.partnerType).map fun b => (a, b)
  | _, _ => .ok (a, b)

/-- Whether a relation holds of two values as a general comparison reads them. -/
def related (relation : Relation) (a b : Atomic) : Except EvalError Bool := do
  let (a, b) ← readAsPartners a b
  return relation.holds (← order (Comparison.general relation).symbol a b)

end Atomic

namespace Item

/-- Compares the single values of two operands. -/
def compareValues (forest : Forest) (relation : Relation) (left right : Item) :
    Except EvalError Item :=
  onAtomicOperands forest left right fun a b => do
    return .boolean (relation.holds (← Atomic.order (Comparison.value relation).symbol a b))

/-- Compares any value of one operand with any of the other, in order, until a pair is related. -/
def compareAny (forest : Forest) (relation : Relation) (left right : Item) :
    Except EvalError Item :=
  onOperands left right do
    let as ← left.atomize forest
    let bs ← right.atomize forest
    return .boolean (← as.anyM fun a => bs.anyM fun b => a.related relation b)

/-- The node that an operand is, if it has any item. -/
def singleNode (item : Item) : Except EvalError (Option Node) :=
  match item.items with
  | [] => .ok none
  | [.node n] => .ok (some n)
  | [other] => .error (.typeError ("node comparison requires a node, got " ++ other.typeName))
  | items => .error (.cardinality "zero or one node" items.length)

/-- Compares the single nodes of two operands. -/
def compareNodes (forest : Forest) (relation : NodeRelation) (left right : Item) :
    Except EvalError Item :=
  onOperands left right do
    match ← left.singleNode, ← right.singleNode with
    | some a, some b => .ok (.boolean (relation.holds forest a b))
    | _, _ => .ok empty

/-- Compares two operands. -/
def compare (forest : Forest) (comparison : Comparison) (left right : Item) :
    Except EvalError Item :=
  match comparison with
  | .value relation => compareValues forest relation left right
  | .general relation => compareAny forest relation left right
  | .node relation => compareNodes forest relation left right

end Item

end TreeQuery
