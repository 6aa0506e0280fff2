import TreeQuery.Operator.Arithmetic

/-!
# Texts, ranges and sets of nodes

The operators whose result is put together from their operands.
-/

namespace TreeQuery

/-- The largest number that a range reports as its length. -/
def largestLength : Nat := UInt64.size - 1

/-- A bound of a range. An untyped text is read as an integer. -/
def Atomic.rangeBound (a other : Atomic) : Except EvalError Int64 :=
  match a with
  | .integer i => .ok i
  | .untyped s =>
    match readInteger? s with
    | some i => .ok i
    | none => .error (.invalidCast a.typeName AtomicType.integer.name)
  | _ => .error (.typeMismatch BinaryOp.range.symbol a.typeName other.typeName)

/-- The nodes of two lists that a set operator keeps, in the order of the lists. -/
def SetOp.select (op : SetOp) (left right : List Node) : List Node :=
  match op with
  | .union => left ++ right
  | .intersect => left.filter right.contains
  | .except => left.filter fun n => !right.contains n

namespace Item

/-- The atomic values of an operand as one text, with spaces between them. -/
def joinedText (forest : Forest) (item : Item) : Except EvalError String :=
  (item.atomize forest).map fun atoms => " ".intercalate (atoms.map Atomic.text)

/-- The texts of two operands, one behind the other. -/
def concat (forest : Forest) (left right : Item) : Except EvalError Item :=
  onOperands left right do
    let l ← left.joinedText forest
    let r ← right.joinedText forest
    return .string (l ++ r)

/-- So many integers from the first one on. -/
def integersFrom (first : Int64) (length : Nat) : List Item :=
  (List.range length).map fun (k : Nat) => .integer (Int64.ofInt (first.toInt + k))

/-- The integers from one bound to the other, if they are not more than `limit`. -/
def range (forest : Forest) (limit : Nat) (left right : Item) : Except EvalError Item :=
  onAtomicOperands forest left right fun a b => do
    let first ← a.rangeBound b
    let last ← b.rangeBound a
    let length := (last.toInt - first.toInt + 1).toNat
    if limit < length then .error (.rangeTooLarge (min length largestLength) limit)
    else .ok (ofItems (integersFrom first length))

/-- The nodes of an operand of a set operator. -/
def nodesFor (op : SetOp) (item : Item) : Except EvalError (List Node) :=
  item.items.mapM fun
    | .node n => .ok n
    | other =>
      .error (.typeError ("'" ++ op.symbol ++ "' requires node sequences, got " ++ other.typeName))

/-- Combines two sets of nodes. -/
def combineNodes (forest : Forest) (op : SetOp) (left right : Item) : Except EvalError Item :=
  onOperands left right do
    let l ← left.nodesFor op
    let r ← right.nodesFor op
    return ofNodes (Node.sorted forest (op.select l r))

end Item

end TreeQuery
