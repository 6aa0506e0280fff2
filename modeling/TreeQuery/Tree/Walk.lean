import TreeQuery.Tree

/-!
# Walking a tree

Every node was created after its parent. So the way up from node `n` has at most `n` steps, and the
way down at most as many as there are nodes; the walks are bounded by that.
-/

namespace TreeQuery.Tree

/-- The nodes above `n`, nearest first, within so many steps. -/
def ancestorsWithin (t : Tree) : Nat → Nat → List Nat
  | 0, _ => []
  | steps + 1, n =>
    match t.parent? n with
    | none => []
    | some p => p :: t.ancestorsWithin steps p

/-- The nodes above `n`, nearest first. -/
def ancestors (t : Tree) (n : Nat) : List Nat := t.ancestorsWithin n n

/-- The way from the root down to `n`, with both ends. -/
def pathTo (t : Tree) (n : Nat) : List Nat := (n :: t.ancestors n).reverse

/-- The root of the tree, reached from `n`. -/
def root (t : Tree) (n : Nat) : Nat := (t.ancestors n).getLastD n

/-- The nodes below `n` within so many levels, each in front of what is below it. -/
def descendantsWithin (t : Tree) : Nat → Nat → List Nat
  | 0, _ => []
  | levels + 1, n => (t.children n).flatMap fun c => c :: t.descendantsWithin levels c

/-- The nodes below `n`, each in front of what is below it. -/
def descendants (t : Tree) (n : Nat) : List Nat := t.descendantsWithin t.size n

/-- A node and what is below it. -/
def subtree (t : Tree) (n : Nat) : List Nat := n :: t.descendants n

/-- The children of the parent of `n`. An attribute has no siblings. -/
def siblings (t : Tree) (n : Nat) : List Nat :=
  if t.kind n = .attribute then []
  else
    match t.parent? n with
    | none => []
    | some p => t.children p

/-- The siblings behind `n`, nearest first. -/
def followingSiblings (t : Tree) (n : Nat) : List Nat := ((t.siblings n).dropWhile (· != n)).tail

/-- The siblings in front of `n`, nearest first. -/
def precedingSiblings (t : Tree) (n : Nat) : List Nat := ((t.siblings n).takeWhile (· != n)).reverse

/-- The first child of `n`. -/
def firstChild? (t : Tree) (n : Nat) : Option Nat := (t.children n).head?

/-- The sibling right behind `n`. -/
def nextSibling? (t : Tree) (n : Nat) : Option Nat := (t.followingSiblings n).head?

/-- The sibling right in front of `n`. -/
def previousSibling? (t : Tree) (n : Nat) : Option Nat := (t.precedingSiblings n).head?

/-- The texts below `n` within so many levels, in order. Only elements are looked into. -/
def textsWithin (t : Tree) : Nat → Nat → List String
  | 0, _ => []
  | levels + 1, n =>
    (t.children n).flatMap fun c =>
      match t.kind c with
      | .text => [(t.node c).value]
      | .element => t.textsWithin levels c
      | _ => []

/-- The text of a node: its value, or for a document and an element all the texts below it. -/
def text (t : Tree) (n : Nat) : String :=
  match t.kind n with
  | .document | .element => String.join (t.textsWithin t.size n)
  | _ => (t.node n).value

end TreeQuery.Tree
