import TreeQuery.Library.Signature

/-!
# Functions on sequences and truth values
-/

namespace TreeQuery.Library

/-- The values without those that are the same as an earlier one. `seen` holds what was kept, latest
first. -/
def distinctFrom (seen : List Atomic) : List Atomic → List Atomic
  | [] => seen.reverse
  | a :: as => if seen.any fun s => s.same a then distinctFrom seen as else distinctFrom (a :: seen) as

/-- The values without those that are the same as an earlier one. -/
def distinct (values : List Atomic) : List Atomic := distinctFrom [] values

/-- The positions, counted from one, of the values that are the same as `target`. -/
def positionsOf (target : Atomic) (values : List Atomic) : List Nat :=
  (values.zipIdx 1).filterMap fun (a, position) => if a.same target then some position else none

/-- Functions on truth values. -/
def truths : List LibraryFunction := [
  .constant "true" fun _ => .ok (.boolean true),
  .constant "false" fun _ => .ok (.boolean false),
  .unary "not" fun _ x => return .boolean !(← x.truth),
  .unary "boolean" fun _ x => return .boolean (← x.truth)]

/-- Functions on sequences. -/
def sequences : List LibraryFunction := [
  .unary "count" fun _ x => .ok (.ofNat x.count),
  .unary "empty" fun _ x => .ok (.boolean x.isEmpty),
  .unary "exists" fun _ x => .ok (.boolean !x.isEmpty),
  .unary "head" fun _ x => .ok (x.items.head?.getD .empty),
  .unary "tail" fun _ x => .ok (.ofList x.items.tail),
  .unary "reverse" fun _ x => .ok (.ofList x.items.reverse),
  .unary "distinct-values" fun forest x => do
    return .ofList ((distinct (← x.atomize forest)).map .ofAtomic),
  .binaryOptional "subsequence" fun forest x start length => do
    let (first, stop) ← partBounds forest "subsequence" start length
    return .ofList (between first stop x.items),
  .binary "index-of" fun forest x target => do
    match ← target.atomizeOptional forest with
    | none => .error (.cardinality "exactly one search value" 0)
    | some target => return .ofList ((positionsOf target (← x.atomize forest)).map .ofNat)]

end TreeQuery.Library
