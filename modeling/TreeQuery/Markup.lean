import TreeQuery.Markup.Event
import TreeQuery.Markup.Namespace
import TreeQuery.Tree

/-!
# Documents from markup

The events of a markup text build a tree, one node for each start, text, comment and instruction. An
element is added when its names have a meaning and its attributes mean different things, and it ends
where its own name does.
-/

namespace TreeQuery.Markup

/-- An element that has started and not ended. -/
structure OpenElement where
  /-- The number of its node. -/
  id : Nat
  /-- Its name as it is written. -/
  name : QName
  /-- The namespaces in scope in it. -/
  scope : List Namespace

/-- A tree that is being built. -/
structure Draft where
  /-- The nodes so far. -/
  tree : Tree
  /-- The elements that are open, the innermost first. -/
  opened : List OpenElement

namespace Draft

/-- A document without content. -/
def empty : Draft := ⟨.empty, []⟩

/-- The node that the next one goes below. -/
def parent (d : Draft) : Nat :=
  match d.opened with
  | [] => 0
  | e :: _ => e.id

/-- The namespaces in scope in the innermost element. -/
def scope (d : Draft) : List Namespace :=
  match d.opened with
  | [] => []
  | e :: _ => e.scope

/-- What the attributes of an element mean, each with its value. No two may mean the same. -/
def expandAttributes? (scope : List Namespace) (attributes : List (QName × String)) :
    Option (List (ExpandedName × String)) := do
  let expanded ← (attributes.filter fun a => !Namespace.isDeclaration a.1).mapM fun a =>
    (ExpandedName.ofAttribute? scope a.1).map fun name => (name, a.2)
  guard (expanded.map Prod.fst).Nodup
  return expanded

/-- Starts an element. -/
def start? (d : Draft) (name : QName) (attributes : List (QName × String)) : Option Draft := do
  guard (name.qualifier != some "xmlns")
  let scope := Namespace.extend (← Namespace.declared? attributes) d.scope
  let expanded ← expandAttributes? scope attributes
  let meant ← ExpandedName.ofElement? scope name
  let id := d.tree.size
  let tree := expanded.foldl (fun t a => t.addAttribute id (a.1.reported scope) a.2)
    (d.tree.addElement d.parent (meant.reported scope))
  return ⟨tree, ⟨id, name, scope⟩ :: d.opened⟩

/-- Ends the innermost element, which must have the name. -/
def stop? (d : Draft) (name : QName) : Option Draft :=
  match d.opened with
  | [] => none
  | e :: opened => if e.name = name then some ⟨d.tree, opened⟩ else none

/-- Takes one more event in. -/
def add? (d : Draft) : Event → Option Draft
  | .start name attributes => d.start? name attributes
  | .stop name => d.stop? name
  | .text value => some { d with tree := d.tree.addText d.parent value }
  | .comment value => some { d with tree := d.tree.addComment d.parent value }
  | .instruction target value =>
    some { d with tree := d.tree.addInstruction d.parent (.simple target) value }

end Draft

/-- The tree that events build, if every element ends. -/
def treeOfEvents? (events : List Event) : Option Tree := do
  let draft ← events.foldlM Draft.add? .empty
  guard draft.opened.isEmpty
  return draft.tree

end TreeQuery.Markup

namespace TreeQuery.Tree

/-- Reads a document from markup. Markup that is not well formed, or that uses a qualifier without
declaring it, is none; so is markup with a document type. -/
def ofMarkup? (text : String) : Option Tree :=
  (Markup.Event.ofText? text.toList).bind Markup.treeOfEvents?

end TreeQuery.Tree
