import TreeQuery.Library.Signature

/-!
# Functions that call functions

Each calls the function that it is given for one item after another. Whatever can be called is a
function here: maps and arrays too.
-/

namespace TreeQuery.Library

/-- The error for a predicate that says neither yes nor no. -/
def undecided (value : Item) : EvalError :=
  .typeError ("filter() predicate must return xs:boolean, got " ++ value.typeName)

/-- What a function gives for every item. -/
def forEach (call : Caller) (items : List Item) (f : Item) : Eval Item := do
  return .ofList (← items.mapM fun x => call f [x])

/-- The items for which a function says yes. -/
def filter (call : Caller) (items : List Item) (f : Item) : Eval Item := do
  let kept ← items.filterM fun x => do
    match ← call f [x] with
    | .boolean b => return b
    | other => throw (undecided other)
  return .ofList kept

/-- Combines the items with a value, from the first item on. -/
def foldLeft (call : Caller) (items : List Item) (start f : Item) : Eval Item :=
  items.foldlM (fun value x => call f [value, x]) start

/-- Combines the items with a value, from the last item on. -/
def foldRight (call : Caller) (items : List Item) (start f : Item) : Eval Item :=
  items.reverse.foldlM (fun value x => call f [x, value]) start

/-- Functions that call functions. -/
def higherOrder : List LibraryFunction := [
  .calling "for-each" 2 fun call args =>
    match args with
    | [x, f] => forEach call x.items f
    | args => throw (.arityMismatch "for-each" args.length "2"),
  .calling "filter" 2 fun call args =>
    match args with
    | [x, f] => filter call x.items f
    | args => throw (.arityMismatch "filter" args.length "2"),
  .calling "fold-left" 3 fun call args =>
    match args with
    | [x, start, f] => foldLeft call x.items start f
    | args => throw (.arityMismatch "fold-left" args.length "3"),
  .calling "fold-right" 3 fun call args =>
    match args with
    | [x, start, f] => foldRight call x.items start f
    | args => throw (.arityMismatch "fold-right" args.length "3")]

end TreeQuery.Library
