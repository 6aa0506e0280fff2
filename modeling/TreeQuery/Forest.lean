import TreeQuery.Tree.Axes
import TreeQuery.Tree.Order

/-!
# Nodes of several documents

A forest is the documents that are known, and a node belongs to one of them. Nodes are compared by
what they name: the document and the position in it. Node sets are kept in document order, one
document after the other.
-/

namespace TreeQuery

/-- The documents that are known. -/
abbrev Forest := Array Tree

/-- A node of a document. -/
structure Node where
  /-- The number of the document. -/
  document : Nat
  /-- The number of the node in its document. -/
  id : Nat
  deriving DecidableEq

namespace Node

/-- The document of a node. -/
def tree (forest : Forest) (n : Node) : Tree := forest.getD n.document .empty

/-- The kind of a node. -/
def kind (forest : Forest) (n : Node) : NodeKind := (n.tree forest).kind n.id

/-- The name of a node. -/
def name? (forest : Forest) (n : Node) : Option QName := (n.tree forest).name? n.id

/-- The text of a node. -/
def text (forest : Forest) (n : Node) : String := (n.tree forest).text n.id

/-- The root of the tree of a node. -/
def root (forest : Forest) (n : Node) : Node := { n with id := (n.tree forest).root n.id }

/-- The nodes that an axis visits from a node, in the order of the axis. -/
def along (forest : Forest) (axis : Axis) (n : Node) : List Node :=
  ((n.tree forest).along axis n.id).map fun id => { n with id }

/-- Whether a test chooses a node that an axis has reached. -/
def passes (forest : Forest) (axis : Axis) (test : NodeTest) (n : Node) : Bool :=
  (n.tree forest).passes axis test n.id

/-- Whether a node is of the kind that a test asks for. -/
def passesKind (forest : Forest) (test : KindTest) (n : Node) : Bool :=
  (n.tree forest).passesKind n.id test

/-- The order of two nodes. Nodes of different documents are in no order: neither comes first. -/
def compareOrder (forest : Forest) (a b : Node) : Ordering :=
  if a.document = b.document then (a.tree forest).compareOrder a.id b.id else .eq

/-- Whether a node does not come after another. -/
def notAfter (forest : Forest) (a b : Node) : Bool := a.compareOrder forest b != .gt

/-- Every node once: document by document as they first occur, and in document order in each. -/
def sorted (forest : Forest) (nodes : List Node) : List Node :=
  let distinct := nodes.eraseDups
  (distinct.map (·.root forest)).eraseDups.flatMap fun r =>
    (distinct.filter fun n => n.root forest == r).mergeSort (notAfter forest)

end Node

end TreeQuery
