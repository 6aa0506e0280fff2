import TreeQuery.Item.Atomize

/-!
# Casts of items

A value is cast by its only atomic value. The empty sequence stays empty where that is allowed.
-/

namespace TreeQuery.Item

/-- Casts a value to a type. -/
def cast (forest : Forest) (target : SingleType) (value : Item) : Except EvalError Item := do
  match ← value.atomizeOptional forest with
  | some a => (a.cast target.type).map ofAtomic
  | none =>
    if target.optional then .ok empty
    else .error (.cardinality ("one value to cast as " ++ target.render) 0)

end TreeQuery.Item
