import TreeQuery.AtomicType
import TreeQuery.Tree.NodeTest

/-!
# Sequence types

The type of a sequence: a type for each of its items, and how many items there may be.
-/

namespace TreeQuery

/-- The type of one item. -/
inductive ItemType where
  | item
  | atomic (type : AtomicType)
  | node (test : KindTest)
  | map
  | array
  | function
  deriving DecidableEq

/-- How many items a sequence may have. -/
inductive Occurrence where
  | one | optional | many | oneOrMore
  deriving DecidableEq

/-- Whether so many items are allowed. -/
def Occurrence.allows : Occurrence → Nat → Bool
  | .one, n => n == 1
  | .optional, n => decide (n ≤ 1)
  | .many, _ => true
  | .oneOrMore, n => decide (1 ≤ n)

/-- The type of a sequence. -/
inductive SequenceType where
  /-- No items at all. -/
  | empty
  /-- So many items of one type. -/
  | items (type : ItemType) (occurrence : Occurrence)
  deriving DecidableEq

/-- The type that a value is cast to, and whether the empty sequence may stay. -/
structure SingleType where
  /-- The type of the value. -/
  type : AtomicType
  /-- Whether the empty sequence is cast to itself. -/
  optional : Bool
  deriving DecidableEq

/-- The text of an item type. -/
def ItemType.render : ItemType → String
  | .item => "item()"
  | .atomic type => type.name
  | .node test => test.render
  | .map => "map(*)"
  | .array => "array(*)"
  | .function => "function(*)"

/-- The mark of an occurrence behind an item type. -/
def Occurrence.render : Occurrence → String
  | .one => ""
  | .optional => "?"
  | .many => "*"
  | .oneOrMore => "+"

/-- The text of a sequence type. -/
def SequenceType.render : SequenceType → String
  | .empty => "empty-sequence()"
  | .items type occurrence => type.render ++ occurrence.render

/-- The text of the type of a cast. -/
def SingleType.render (t : SingleType) : String := t.type.name ++ (if t.optional then "?" else "")

end TreeQuery
