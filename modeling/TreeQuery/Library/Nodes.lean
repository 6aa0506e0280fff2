import TreeQuery.Library.Signature

/-!
# Functions on nodes and the focus, and raising errors
-/

namespace TreeQuery.Library

/-- The code of an error that is raised without one. -/
def defaultCode : String := "FOER0000"

/-- The text of an error that is raised without one. -/
def defaultText : String := "error raised by fn:error"

/-- The error that an expression raises with some arguments: a code, then a text. -/
def raised (forest : Forest) (args : List Item) : Except EvalError Item := do
  let code ←
    match args.head? with
    | some code => if code.isEmpty then .ok defaultCode else code.textArgument forest
    | none => .ok defaultCode
  let text ←
    match args.tail.head? with
    | some text => text.textArgument forest
    | none => .ok defaultText
  .error (.user code text)

/-- A function of the name of a node; a node without a name has the empty one. -/
def onName (function : String) (f : QName → String) : LibraryFunction :=
  .onContext function fun forest x => do
    let node ← x.nodeArgument function
    return .string ((node.bind fun n => n.name? forest).elim "" f)

/-- Functions on nodes and the focus. -/
def nodes : List LibraryFunction := [
  .constant "position" fun c => return .ofNat (← c.getFocus).position,
  .constant "last" fun c => return .ofNat (← c.getFocus).size,
  onName "name" QName.render,
  onName "local-name" QName.localName,
  .onContext "data" fun forest x => return .ofList ((← x.atomize forest).map .ofAtomic),
  .onContext "root" fun forest x => do
    return (← x.nodeArgument "root").elim .empty fun n => .node (n.root forest),
  { name := "error", least := 0, most := 2,
    run := fun _ args => .reading fun c => raised c.forest args }]

end TreeQuery.Library
