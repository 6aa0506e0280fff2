import TreeQuery.Tree.Walk

/-!
# Axes

`along` lists the nodes that an axis visits from a node: in document order, or nearest first on the
axes that go back. `passes` says which of them a node test chooses.
-/

namespace TreeQuery.Tree

/-- The nodes behind a node that is no attribute, without those below it. -/
def followingTree (t : Tree) (n : Nat) : List Nat :=
  (n :: t.ancestors n).flatMap fun a => (t.followingSiblings a).flatMap t.subtree

/-- The nodes in front of a node that is no attribute, without those above it, nearest first. -/
def precedingTree (t : Tree) (n : Nat) : List Nat :=
  (n :: t.ancestors n).flatMap fun a => (t.precedingSiblings a).flatMap fun s => (t.subtree s).reverse

/-- The nodes that come after `n`. What is inside an element comes after its attributes. -/
def following (t : Tree) (n : Nat) : List Nat :=
  if t.kind n = .attribute then
    match t.parent? n with
    | none => []
    | some owner => t.descendants owner ++ t.followingTree owner
  else t.followingTree n

/-- The nodes that come before `n`, nearest first. An attribute takes the place of its element. -/
def preceding (t : Tree) (n : Nat) : List Nat :=
  if t.kind n = .attribute then
    match t.parent? n with
    | none => []
    | some owner => t.precedingTree owner
  else t.precedingTree n

/-- The nodes that an axis visits from `n`, in the order of the axis. -/
def along (t : Tree) (axis : Axis) (n : Nat) : List Nat :=
  match axis with
  | .child => t.children n
  | .descendant => t.descendants n
  | .parent => (t.parent? n).toList
  | .ancestor => t.ancestors n
  | .followingSibling => t.followingSiblings n
  | .precedingSibling => t.precedingSiblings n
  | .following => t.following n
  | .preceding => t.preceding n
  | .attribute => if t.kind n = .element then t.attributes n else []
  | .self => [n]
  | .descendantOrSelf => t.subtree n
  | .ancestorOrSelf => n :: t.ancestors n

/-- Whether a node has a name that a test leaves open or asks for. -/
def isNamed (t : Tree) (n : Nat) : Option QName → Bool
  | none => true
  | some name => t.name? n == some name

/-- Whether a node is of the kind that a test asks for. -/
def passesKind (t : Tree) (n : Nat) : KindTest → Bool
  | .anyNode => true
  | .text => t.kind n == .text
  | .comment => t.kind n == .comment
  | .document => t.kind n == .document
  | .processingInstruction target =>
    t.kind n == .processingInstruction &&
      target.all fun target => (t.name? n).any fun name => name.localName == target
  | .element name => t.kind n == .element && t.isNamed n name
  | .attribute name => t.kind n == .attribute && t.isNamed n name

/-- Whether a name satisfies a test for names. -/
def passesName (name : QName) : NodeTest → Bool
  | .named q => name == q
  | .anyName => true
  | .anyQualifier localName => name.localName == localName
  | .anyLocal qualifier => name.qualifier == some qualifier
  | .kind _ => false

/-- Whether a test chooses a node that an axis has reached. A name chooses only nodes of the kind that
the axis is for. -/
def passes (t : Tree) (axis : Axis) (test : NodeTest) (n : Nat) : Bool :=
  match test with
  | .kind k => t.passesKind n k
  | test => t.kind n == axis.principalKind && (t.name? n).any fun name => passesName name test

end TreeQuery.Tree
