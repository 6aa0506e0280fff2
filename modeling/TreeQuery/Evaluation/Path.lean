import TreeQuery.Context
import TreeQuery.Expr.Canonical
import TreeQuery.Item.Atomize

/-!
# Paths and predicates

A path goes from the nodes of its left side to what its right side finds for each of them. Nodes
that are found are put into document order, each once; other values stay as they come, and a path
does not mix the two.
-/

namespace TreeQuery

namespace Item

/-- The text of the error for a left side that is no node. -/
def pathBaseError (item : Item) : EvalError :=
  .typeError ("the left side of '/' must be nodes, got " ++ item.typeName)

/-- A value that must hold nodes only. -/
def onlyNodes (value : Item) : Except EvalError Unit :=
  match value.items.find? fun item => item.node?.isNone with
  | some item => .error (pathBaseError item)
  | none => .ok ()

/-- What the steps of a path have found, as one value. -/
def joinSteps (forest : Forest) (found : List Item) : Except EvalError Item :=
  let nodes := found.filterMap node?
  if nodes.isEmpty then .ok (ofList found)
  else if nodes.length < found.length then
    .error (.typeError "a path step returned both nodes and non-node values")
  else .ok (ofNodes (Node.sorted forest nodes))

/-- Whether the value of a predicate keeps the item at a position: a number is the position that is
kept, any other value counts by its truth. -/
def keeps (value : Item) (position : Nat) : Except EvalError Bool :=
  match value with
  | .integer i => .ok (i.toInt == position)
  | .decimal d => .ok (d.signed == position * tenTo d.scale)
  | .double x => .ok (x == doubleOfNat position)
  | value => value.truth

end Item

namespace Context

/-- The node that a path from the root starts at: the root of the context node, or of the document
if the context item is no node. -/
def rootNode (c : Context) : Except EvalError Node :=
  match (c.focus.bind fun focus => focus.item.node?).or c.root with
  | some n => .ok (n.root c.forest)
  | none => .error .undefinedContext

/-- The nodes that a step finds before its predicates are applied. -/
def stepNodes (c : Context) (axis : Axis) (test : NodeTest) (predicates : List Expr) :
    Except EvalError (List Node) := do
  match ← c.contextItem with
  | .node n => return (n.along c.forest axis).filter (·.passes c.forest axis test)
  | other =>
    .error (.typeError ("axis step " ++ (Expr.step axis test predicates).render ++
      " needs a node as context item, got " ++ other.typeName))

end Context

namespace Eval

/-- Keeps the items that satisfy a predicate, which is evaluated with the focus on each of them. -/
def filterItems (items : List Item) (predicate : Eval Item) : Eval (List Item) := do
  let size := items.length
  let kept ← (items.zipIdx 1).filterMapM fun (item, position) => do
    let value ← withFocus (some ⟨item, position, size⟩) predicate
    return if ← reading fun _ => value.keeps position then some item else none
  return kept

/-- Goes from every node of a value to what `right` finds there. -/
def followPath (base : Item) (right : Eval Item) : Eval Item := do
  reading fun _ => base.onlyNodes
  let found ← forEachItem base right
  reading fun c => Item.joinSteps c.forest (found.flatMap Item.items)

end Eval

end TreeQuery
