import TreeQuery.Item
import TreeQuery.Text.Escaped

/-!
# The text of values

How a value is shown to a reader. Plain data is shown as an expression that has it as its value.
-/

namespace TreeQuery

/-- The number of arguments that are still to come. -/
def FunctionItem.arity : FunctionItem → Nat
  | .named _ arity => arity
  | .inline params _ _ => params.length
  | .waiting _ args => (args.filter Option.isNone).length

/-- The name of a function; a call that waits for arguments has that of its base. -/
def FunctionItem.name? : FunctionItem → Option QName
  | .named name _ => some name
  | .inline .. => none
  | .waiting (.function f) _ => f.name?
  | .waiting .. => none

/-- The text of a function. -/
def FunctionItem.render (f : FunctionItem) : String :=
  (match f with
    | .waiting .. => "partial "
    | _ => "") ++
  (match f.name? with
    | some name => name.render
    | none => "(anonymous)") ++ "#" ++ toString f.arity

/-- The text of a node: an element or an attribute as it is written in a document, other kinds as
they are tested for. -/
def Node.render (forest : Forest) (n : Node) : String :=
  let name := (n.name? forest).elim "" QName.render
  match n.kind forest with
  | .document => "document-node()"
  | .element => "<" ++ name ++ ">"
  | .attribute => "@" ++ name ++ "=\x22" ++ n.text forest ++ "\x22"
  | .text => "text(" ++ Text.escaped (n.text forest) ++ ")"
  | .comment => "comment(" ++ Text.escaped (n.text forest) ++ ")"
  | .processingInstruction => "processing-instruction(" ++ name ++ ")"

namespace Item

/-- A text behind another one, with a comma between them unless it is the first. -/
def listed (before : Option String) (text : String) : Option String :=
  match before with
  | none => some text
  | some before => some (before ++ ", " ++ text)

mutual

/-- The text of a value. -/
def render (forest : Forest) : Item → String
  | .integer i => Integer.render i
  | .decimal d => d.normalize.render
  | .double x => renderDouble x
  | .string s => Text.quoted s
  | .boolean b => renderBoolean b ++ "()"
  | .sequence items => "(" ++ renderAll forest none items ++ ")"
  | .array members => "[" ++ renderAll forest none members ++ "]"
  | .map [] => "map \x7b\x7d"
  | .map entries => "map \x7b " ++ renderEntries forest none entries ++ " \x7d"
  | .node n => n.render forest
  | .function f => f.render
  | .error e => "error: " ++ e.message
  | .nil => "nil"

/-- The texts of values behind others, with commas between them. -/
def renderAll (forest : Forest) (before : Option String) : List Item → String
  | [] => before.getD ""
  | item :: items => renderAll forest (listed before (render forest item)) items

/-- The texts of map entries behind others, with commas between them. -/
def renderEntries (forest : Forest) (before : Option String) : List (MapKey × Item) → String
  | [] => before.getD ""
  | (key, value) :: entries =>
    renderEntries forest (listed before (key.render ++ ": " ++ render forest value)) entries

end

end Item

end TreeQuery
