import TreeQuery.Name

/-!
# Kinds of nodes, axes and node tests

A step of a path names an axis, along which nodes are visited, and a test that chooses among them.
-/

namespace TreeQuery

/-- The kind of a node. -/
inductive NodeKind where
  | document | element | attribute | text | comment | processingInstruction
  deriving DecidableEq

/-- A direction in which nodes are visited. -/
inductive Axis where
  | child | descendant | parent | ancestor | followingSibling | precedingSibling | following
  | preceding | attribute | self | descendantOrSelf | ancestorOrSelf
  deriving DecidableEq

namespace Axis

/-- The name of an axis. -/
def name : Axis → String
  | .child => "child"
  | .descendant => "descendant"
  | .parent => "parent"
  | .ancestor => "ancestor"
  | .followingSibling => "following-sibling"
  | .precedingSibling => "preceding-sibling"
  | .following => "following"
  | .preceding => "preceding"
  | .attribute => "attribute"
  | .self => "self"
  | .descendantOrSelf => "descendant-or-self"
  | .ancestorOrSelf => "ancestor-or-self"

/-- All axes. -/
def all : List Axis :=
  [.child, .descendant, .parent, .ancestor, .followingSibling, .precedingSibling, .following,
    .preceding, .attribute, .self, .descendantOrSelf, .ancestorOrSelf]

/-- The axis of a name. -/
def ofName? (name : String) : Option Axis := all.find? fun a => a.name == name

/-- Whether an axis visits the nearest nodes first, against document order. -/
def isReverse : Axis → Bool
  | .parent | .ancestor | .ancestorOrSelf | .preceding | .precedingSibling => true
  | _ => false

/-- The kind of node that a mere name chooses on an axis. -/
def principalKind : Axis → NodeKind
  | .attribute => .attribute
  | _ => .element

end Axis

/-- A test for the kind of a node, in some kinds with a name. -/
inductive KindTest where
  | anyNode
  | text
  | comment
  | processingInstruction (target : Option String)
  | document
  | element (name : Option QName)
  | attribute (name : Option QName)
  deriving DecidableEq

namespace KindTest

/-- The test of a keyword, without an argument. -/
def ofKeyword? (word : String) : Option KindTest :=
  [("node", .anyNode), ("text", .text), ("comment", .comment),
    ("processing-instruction", .processingInstruction none), ("document-node", .document),
    ("element", .element none), ("attribute", .attribute none)].lookup word

/-- The text of a kind test. -/
def render : KindTest → String
  | .anyNode => "node()"
  | .text => "text()"
  | .comment => "comment()"
  | .processingInstruction none => "processing-instruction()"
  | .processingInstruction (some target) => "processing-instruction(" ++ target ++ ")"
  | .document => "document-node()"
  | .element none => "element()"
  | .element (some name) => "element(" ++ name.render ++ ")"
  | .attribute none => "attribute()"
  | .attribute (some name) => "attribute(" ++ name.render ++ ")"

end KindTest

/-- A test for nodes: by name or by kind. -/
inductive NodeTest where
  /-- Exactly this name. -/
  | named (name : QName)
  /-- `*`: any name. -/
  | anyName
  /-- `*:name`: this name with any qualifier. -/
  | anyQualifier (localName : String)
  /-- `qualifier:*`: any name with this qualifier. -/
  | anyLocal (qualifier : String)
  /-- A kind of node. -/
  | kind (test : KindTest)
  deriving DecidableEq

/-- The text of a node test. -/
def NodeTest.render : NodeTest → String
  | .named name => name.render
  | .anyName => "*"
  | .anyQualifier localName => "*:" ++ localName
  | .anyLocal qualifier => qualifier ++ ":*"
  | .kind test => test.render

end TreeQuery
