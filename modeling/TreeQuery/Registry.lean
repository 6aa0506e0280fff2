import TreeQuery.Context

/-!
# Registries

The functions that expressions can call by name. Names stand in the registry as they are written,
but the qualifier `fn` is the default and is left out.
-/

namespace TreeQuery

/-- How a function calls the functions that it is given. -/
abbrev Caller := Item → List Item → Eval Item

/-- A function that can be called by name. -/
structure LibraryFunction where
  /-- The name without the default qualifier. -/
  name : String
  /-- How many arguments it takes at least. -/
  least : Nat
  /-- How many arguments it takes at most. -/
  most : Nat
  /-- Its value for so many arguments. -/
  run : Caller → List Item → Eval Item

namespace LibraryFunction

/-- The number of arguments that stands for any number of them. -/
def unlimited : Nat := UInt64.size - 1

/-- Whether so many arguments are taken. -/
def accepts (f : LibraryFunction) (n : Nat) : Bool := decide (f.least ≤ n ∧ n ≤ f.most)

/-- The numbers of arguments that are taken, as errors show them. -/
def describeArity (f : LibraryFunction) : String :=
  if f.least = f.most then toString f.least
  else if f.most = unlimited then toString f.least ++ " or more"
  else if f.most = f.least + 1 then toString f.least ++ " or " ++ toString f.most
  else toString f.least ++ " to " ++ toString f.most

end LibraryFunction

/-- Functions by their names. -/
structure Registry where
  /-- The functions, whose names are all different. -/
  functions : List LibraryFunction

namespace Registry

/-- A registry without functions. -/
def empty : Registry := ⟨[]⟩

/-- The default qualifier with its colon. -/
def defaultQualifier : List Char := ['f', 'n', ':']

/-- A name without the default qualifier. -/
def withoutDefault (name : String) : String :=
  if defaultQualifier.isPrefixOf name.toList then
    String.ofList (name.toList.drop defaultQualifier.length)
  else name

/-- Adds a function, in place of one of the same name. -/
def register (r : Registry) (f : LibraryFunction) : Registry :=
  let f := { f with name := withoutDefault f.name }
  ⟨(r.functions.filter fun g => g.name != f.name) ++ [f]⟩

/-- The function that stands under a name as it is written there. -/
def find? (r : Registry) (name : String) : Option LibraryFunction :=
  r.functions.find? fun f => f.name == name

/-- The function of a name given as text, with or without the default qualifier. -/
def lookup? (r : Registry) (name : String) : Option LibraryFunction :=
  r.find? (withoutDefault name)

/-- The function of a qualified name. -/
def resolve? (r : Registry) (name : QName) : Option LibraryFunction :=
  if name.qualifier = none ∨ name.qualifier = some "fn" then r.find? name.localName
  else r.find? name.render

/-- The names in the order of their characters. -/
def names (r : Registry) : List String :=
  (r.functions.map LibraryFunction.name).mergeSort fun a b => !decide (b < a)

/-- The number of functions. -/
def size (r : Registry) : Nat := r.functions.length

end Registry

end TreeQuery
