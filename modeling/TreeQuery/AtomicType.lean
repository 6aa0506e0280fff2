import TreeQuery.Name

/-!
# Atomic types

The types of single values, by their qualified names.
-/

namespace TreeQuery

/-- A type of atomic values. -/
inductive AtomicType where
  | anyAtomic | numeric | integer | decimal | double | string | boolean | untyped
  deriving DecidableEq

namespace AtomicType

/-- The name of a type without its qualifier. -/
def localName : AtomicType → String
  | .anyAtomic => "anyAtomicType"
  | .numeric => "numeric"
  | .integer => "integer"
  | .decimal => "decimal"
  | .double => "double"
  | .string => "string"
  | .boolean => "boolean"
  | .untyped => "untypedAtomic"

/-- The qualified name of a type. -/
def name (t : AtomicType) : String := "xs:" ++ t.localName

/-- All atomic types. -/
def all : List AtomicType :=
  [.anyAtomic, .numeric, .integer, .decimal, .double, .string, .boolean, .untyped]

/-- The type of a name; the qualifier `xs` may be left out. -/
def ofName? (n : QName) : Option AtomicType :=
  if n.qualifier = none ∨ n.qualifier = some "xs" then all.find? fun t => t.localName == n.localName
  else none

end AtomicType

end TreeQuery
