import TreeQuery.Item.Access
import TreeQuery.Library.Signature

/-!
# Functions on maps and arrays
-/

namespace TreeQuery.Library

/-- The error for a position that is no integer. -/
def noPosition (value : Option Atomic) : EvalError :=
  .typeError ("array:get() expects an xs:integer position, got " ++
    value.elim Item.empty.typeName Atomic.typeName)

/-- Functions on maps and arrays. -/
def collections : List LibraryFunction := [
  .unary "map:size" fun _ m => return .ofNat (← m.mapArgument "map:size").length,
  .unary "map:keys" fun _ m => do
    return .ofList ((Table.keys (← m.mapArgument "map:keys")).map fun key => .ofAtomic key.toAtomic),
  .binary "map:get" fun forest m key => do
    let entries ← m.mapArgument "map:get"
    return Item.valueOf entries (← key.keyArgument forest),
  .binary "map:contains" fun forest m key => do
    let entries ← m.mapArgument "map:contains"
    return .boolean (Table.holds (← key.keyArgument forest) entries),
  .ternary "map:put" fun forest m key value => do
    let entries ← m.mapArgument "map:put"
    return .map (Table.put (← key.keyArgument forest) value entries),
  .unary "array:size" fun _ a => return .ofNat (← a.arrayArgument "array:size").length,
  .binary "array:get" fun forest a position => do
    let members ← a.arrayArgument "array:get"
    match ← position.atomizeOptional forest with
    | some (.integer i) => Item.memberAt members i
    | other => .error (noPosition other),
  .binary "array:append" fun _ a member => do
    return .array ((← a.arrayArgument "array:append") ++ [member])]

end TreeQuery.Library
