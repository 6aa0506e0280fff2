import TreeQuery.Tree.Walk

/-!
# Document order

Two nodes are ordered where their ways from the root part: a node comes before what is below it, the
attributes of an element come before its children, and siblings are ordered as they stand.
-/

namespace TreeQuery.Tree

/-- The order of two different nodes below the same one. -/
def compareSiblings (t : Tree) (owner x y : Nat) : Ordering :=
  match t.kind x == .attribute, t.kind y == .attribute with
  | true, false => .lt
  | false, true => .gt
  | true, true => compare ((t.attributes owner).idxOf x) ((t.attributes owner).idxOf y)
  | false, false => if (t.followingSiblings x).contains y then .lt else .gt

/-- The order of the ends of two ways that have come down to `owner` together. -/
def comparePaths (t : Tree) (owner : Nat) : List Nat → List Nat → Ordering
  | [], [] => .eq
  | [], _ :: _ => .lt
  | _ :: _, [] => .gt
  | x :: xs, y :: ys => if x = y then t.comparePaths x xs ys else t.compareSiblings owner x y

/-- The order of two nodes of the tree. -/
def compareOrder (t : Tree) (a b : Nat) : Ordering :=
  match t.pathTo a, t.pathTo b with
  | x :: xs, y :: ys => if x = y then t.comparePaths x xs ys else .eq
  | _, _ => .eq

end TreeQuery.Tree
