import TreeQuery.Tree.NodeTest

/-!
# Trees

A tree is a document: an array of nodes that is built by calls, each of which appends one node below
an earlier one. A node is named by its position in the array, which is the order of creation; the
document node is number 0. Attributes are kept apart from the children of their element.
-/

namespace TreeQuery

/-- What a tree knows of one node. -/
structure NodeData where
  /-- The kind of the node. -/
  kind : NodeKind
  /-- The name of an element or an attribute, or the target of a processing instruction. -/
  name : Option QName := none
  /-- The text of a node that is neither a document nor an element. -/
  value : String := ""
  /-- The node above, which for an attribute is its element. -/
  parent : Option Nat := none
  /-- The children in order. -/
  children : Array Nat := #[]
  /-- The attributes in order. -/
  attributes : Array Nat := #[]

/-- A document tree. -/
structure Tree where
  /-- The nodes in the order of their creation. -/
  nodes : Array NodeData

namespace Tree

/-- A document without content. -/
def empty : Tree := ⟨#[{ kind := .document }]⟩

/-- The number of nodes, which is the number that the next node gets. -/
def size (t : Tree) : Nat := t.nodes.size

/-- What is known of a node; a number that no node has stands for an empty document. -/
def node (t : Tree) (n : Nat) : NodeData := t.nodes.getD n { kind := .document }

/-- The kind of a node. -/
def kind (t : Tree) (n : Nat) : NodeKind := (t.node n).kind

/-- The name of a node. -/
def name? (t : Tree) (n : Nat) : Option QName := (t.node n).name

/-- The node above a node. -/
def parent? (t : Tree) (n : Nat) : Option Nat := (t.node n).parent

/-- The children of a node, in order. -/
def children (t : Tree) (n : Nat) : List Nat := (t.node n).children.toList

/-- The attributes of a node, in order. -/
def attributes (t : Tree) (n : Nat) : List Nat := (t.node n).attributes.toList

/-- Appends a node as the last child of `parent`. -/
def addChild (t : Tree) (parent : Nat) (kind : NodeKind) (name : Option QName) (value : String) :
    Tree :=
  ⟨(t.nodes.modify parent fun d => { d with children := d.children.push t.size }).push
    { kind, name, value, parent := some parent }⟩

/-- Appends an element as the last child of `parent`. -/
def addElement (t : Tree) (parent : Nat) (name : QName) : Tree :=
  t.addChild parent .element (some name) ""

/-- Appends a text as the last child of `parent`. -/
def addText (t : Tree) (parent : Nat) (value : String) : Tree := t.addChild parent .text none value

/-- Appends a comment as the last child of `parent`. -/
def addComment (t : Tree) (parent : Nat) (value : String) : Tree :=
  t.addChild parent .comment none value

/-- Appends a processing instruction as the last child of `parent`. -/
def addInstruction (t : Tree) (parent : Nat) (target : QName) (value : String) : Tree :=
  t.addChild parent .processingInstruction (some target) value

/-- Appends an attribute as the last one of `owner`. -/
def addAttribute (t : Tree) (owner : Nat) (name : QName) (value : String) : Tree :=
  ⟨(t.nodes.modify owner fun d => { d with attributes := d.attributes.push t.size }).push
    { kind := .attribute, name := some name, value, parent := some owner }⟩

/-- Appends an element that holds a text and nothing else. -/
def addLeaf (t : Tree) (parent : Nat) (name : QName) (value : String) : Tree :=
  (t.addElement parent name).addText t.size value

/-- The element of a local name that was created first. -/
def find? (t : Tree) (localName : String) : Option Nat :=
  (List.range t.size).find? fun n =>
    t.kind n == .element && (t.name? n).any fun name => name.localName == localName

end Tree

end TreeQuery
