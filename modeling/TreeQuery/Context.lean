import TreeQuery.Item

/-!
# Contexts

What the value of an expression depends on: the variables in scope, the focus, the document root,
how deep calls are nested, and the limits. Scopes lie in an array; each but the first knows the one
around it, and leaving a scope drops it from the end.

An evaluation is a step from context to context with a value or an error. The context survives an
error, so whoever changes it for a while puts it back in both cases.
-/

namespace TreeQuery

/-- The item that is looked at, and its place among those that are looked at in turn. -/
structure Focus where
  /-- The context item. -/
  item : Item
  /-- The place of the item, counted from one. -/
  position : Nat
  /-- How many items are looked at. -/
  size : Nat

/-- The focus on a value of its own. -/
def Focus.single (item : Item) : Focus := ⟨item, 1, 1⟩

/-- Variables and the scope around them. -/
structure Scope where
  /-- The scope that is looked into next. -/
  parent : Option Nat
  /-- The variables of this scope, each bound once. -/
  bindings : List (QName × Item)

/-- Limits of an evaluation. -/
structure Limits where
  /-- How deep calls may be nested. -/
  depth : Nat := 256
  /-- How many items a range may have. -/
  range : Nat := 10000000
  deriving DecidableEq

/-- What the value of an expression depends on. -/
structure Context where
  /-- The documents that nodes belong to. -/
  forest : Forest := #[]
  /-- The scopes, the innermost last. -/
  scopes : Array Scope := #[⟨none, []⟩]
  /-- The scope that variables are bound in. -/
  current : Nat := 0
  /-- What is looked at, if anything is. -/
  focus : Option Focus := none
  /-- The document whose root `/` finds when the focus is on no node. -/
  root : Option Node := none
  /-- The limits of the evaluation. -/
  limits : Limits := {}
  /-- How deep calls are nested. -/
  depth : Nat := 0

namespace Scope

/-- Binds a variable, in place of what it was bound to in this scope. -/
def bind (s : Scope) (name : QName) (value : Item) : Scope :=
  { s with bindings := (name, value) :: s.bindings.filter fun v => v.1 != name }

end Scope

namespace Context

/-- Binds a variable in the current scope. -/
def bind (c : Context) (name : QName) (value : Item) : Context :=
  { c with scopes := c.scopes.modify c.current fun s => s.bind name value }

/-- Binds a variable whose name is given as text, with or without `$` in front. -/
def setVariable (c : Context) (name : String) (value : Item) : Except EvalError Context :=
  let text := String.ofList (name.toList.dropWhile (· == '$'))
  match QName.parse? text with
  | some name => .ok (c.bind name value)
  | none => .error (.invalidName text)

/-- What a variable is bound to in a scope or one around it, within so many scopes. -/
def lookupWithin (scopes : Array Scope) (name : QName) : Nat → Nat → Option Item
  | 0, _ => none
  | steps + 1, i =>
    match scopes[i]? with
    | none => none
    | some s =>
      match s.bindings.lookup name with
      | some value => some value
      | none =>
        match s.parent with
        | none => none
        | some p => lookupWithin scopes name steps p

/-- What a variable is bound to, in the innermost scope that binds it. -/
def lookup? (c : Context) (name : QName) : Option Item :=
  lookupWithin c.scopes name c.scopes.size c.current

/-- Makes a node the document root and the context item. -/
def setDocument (c : Context) (root : Node) : Context :=
  { c with root := some root, focus := some (.single (.node root)) }

/-- Makes a value the context item. -/
def setContextItem (c : Context) (item : Item) : Context :=
  { c with focus := some (.single item) }

/-- The focus, which must be there. -/
def getFocus (c : Context) : Except EvalError Focus :=
  match c.focus with
  | some focus => .ok focus
  | none => .error .undefinedContext

/-- The context item, which must be there. -/
def contextItem (c : Context) : Except EvalError Item := c.getFocus.map Focus.item

end Context

/-- An evaluation: a value or an error, and the context that it leaves. -/
abbrev Eval (α : Type) := ExceptT EvalError (StateM Context) α

namespace Eval

/-- An evaluation that only reads the context. -/
def reading {α : Type} (f : Context → Except EvalError α) : Eval α :=
  ExceptT.mk fun c => (f c, c)

/-- Binds a variable in the current scope. -/
def bindVariable (name : QName) (value : Item) : Eval Unit :=
  ExceptT.mk fun c => (.ok (), c.bind name value)

/-- Evaluates in a scope of its own, which is dropped afterwards. -/
def inScope {α : Type} (body : Eval α) : Eval α :=
  ExceptT.mk fun c =>
    let size := c.scopes.size
    let current := c.current
    let (result, c) := body.run.run
      { c with scopes := c.scopes.push ⟨some current, []⟩, current := size }
    (result, { c with scopes := c.scopes.shrink size, current })

/-- Evaluates with another focus, or with none. -/
def withFocus {α : Type} (focus : Option Focus) (body : Eval α) : Eval α :=
  ExceptT.mk fun c =>
    let saved := c.focus
    let (result, c) := body.run.run { c with focus }
    (result, { c with focus := saved })

/-- Evaluates one call deeper, unless calls are nested as deep as they may be. -/
def descend {α : Type} (body : Eval α) : Eval α :=
  ExceptT.mk fun c =>
    if c.limits.depth ≤ c.depth then (.error (.recursionLimit c.limits.depth), c)
    else
      let (result, c) := body.run.run { c with depth := c.depth + 1 }
      (result, { c with depth := c.depth - 1 })

/-- Evaluates once for every item of a value, with the focus on it. -/
def forEachItem {α : Type} (value : Item) (body : Eval α) : Eval (List α) :=
  let size := value.count
  (value.items.zipIdx 1).mapM fun (item, position) =>
    withFocus (some ⟨item, position, size⟩) body

end Eval

end TreeQuery
