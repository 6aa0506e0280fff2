import TreeQuery.Item.Access
import TreeQuery.Item.Cast
import TreeQuery.Item.Render
import TreeQuery.Item.Typing
import TreeQuery.Registry

/-!
# Calls

A function value is called with all its arguments. A call that runs code, that of the library or the
body of an inline function, counts as one level of depth; a cast, a look into a map or an array,
and filling the gaps of a waiting call do not.
-/

namespace TreeQuery

/-- What a call can do one level deeper: evaluate a body, and call further functions. -/
structure Deeper where
  /-- Evaluates an expression. -/
  eval : Expr → Eval Item
  /-- Calls a function value. -/
  call : Caller

/-- The type whose values a function of this name constructs: `xs:integer(…)` and its like. -/
def constructorType? (name : QName) : Option AtomicType :=
  if name.qualifier = some "xs" then
    (AtomicType.ofName? name).filter fun t => t != .anyAtomic && t != .numeric
  else none

namespace Registry

/-- Whether a function of this name takes so many arguments. -/
def knows (r : Registry) (name : QName) (arity : Nat) : Bool :=
  ((constructorType? name).isSome && arity == 1) ||
    (r.resolve? name).any fun f => f.accepts arity

/-- A function by its name, if there is one. -/
def reference (r : Registry) (name : QName) (arity : Nat) : Except EvalError Item :=
  if r.knows name arity then .ok (.function (.named name arity))
  else .error (.undefinedFunction name.render arity)

end Registry

namespace Eval

/-- Calls a function by its name. -/
def callNamed (registry : Registry) (deeper : Deeper) (name : QName) (args : List Item) : Eval Item :=
  match constructorType? name with
  | some type =>
    match args with
    | [value] => reading fun c => value.cast c.forest ⟨type, true⟩
    | _ => throw (.arityMismatch name.render args.length "1")
  | none =>
    match registry.resolve? name with
    | none => throw (.undefinedFunction name.render args.length)
    | some f =>
      if f.accepts args.length then
        descend do
          let value ← f.run deeper.call args
          reading fun _ => value.toResult
      else throw (.arityMismatch name.render args.length f.describeArity)

/-- Binds the parameters of a function to its arguments, whose types are checked. -/
def bindParams : List Param → List Item → Eval Unit
  | ⟨name, type⟩ :: params, value :: values => do
    match type with
    | none => bindVariable name value
    | some type =>
      if ← reading fun c => .ok (value.hasType c.forest type) then bindVariable name value
      else
        throw (.typeError ("argument $" ++ name.render ++ " expects " ++ type.render ++ ", got " ++
          value.typeName))
    bindParams params values
  | _, _ => pure ()

/-- Checks the type of the result of a function. -/
def checkResult (type : Option SequenceType) (value : Item) : Eval Item :=
  match type with
  | none => pure value
  | some type => do
    if ← reading fun c => .ok (value.hasType c.forest type) then return value
    else
      throw (.typeError ("function result expects " ++ type.render ++ ", got " ++ value.typeName))

/-- Runs an inline function: its body sees the variables of the caller and the parameters, and no
context item. -/
def callInline (deeper : Deeper) (params : List Param) (result : Option SequenceType) (body : Expr)
    (args : List Item) : Eval Item :=
  descend (inScope do
    bindParams params args
    checkResult result (← withFocus none (deeper.eval body)))

/-- The error of a call of a value with a wrong number of arguments. -/
def wrongArity (function : Item) (got expected : Nat) : Eval Item :=
  reading fun c => .error (.arityMismatch (function.render c.forest) got (toString expected))

/-- What a map gives for a key. -/
def callMap (entries : Table Item) (key : Item) : Eval Item :=
  reading fun c => do
    match ← key.atomizeOptional c.forest with
    | some key => .ok (Item.valueOf entries (.ofAtomic key))
    | none => .error (.cardinality "exactly one map key" 0)

/-- What an array gives for a position. -/
def callArray (members : List Item) (index : Item) : Eval Item :=
  reading fun c => do
    match ← index.atomizeOptional c.forest with
    | some key => Item.memberAt members (← key.arrayIndex)
    | none => .error (.cardinality "exactly one array index" 0)

/-- Fills the gaps of a waiting call in order, if there are values enough. -/
def fillGaps : List (Option Item) → List Item → Option (List Item)
  | [], _ => some []
  | some value :: slots, supplied => (fillGaps slots supplied).map (value :: ·)
  | none :: slots, value :: supplied => (fillGaps slots supplied).map (value :: ·)
  | none :: _, [] => none

end Eval

/-- The number of arguments that a value is called with, if it can be called. -/
def Item.arity (item : Item) : Except EvalError Nat :=
  match item with
  | .function f => .ok f.arity
  | .map _ | .array _ => .ok 1
  | other => .error (.notCallable other.typeName)

namespace Eval

mutual

/-- Calls a value. -/
def callItem (registry : Registry) (deeper : Deeper) : Item → List Item → Eval Item
  | .function f, args => callFunction registry deeper f args
  | .map entries, [key] => callMap entries key
  | .map entries, args => wrongArity (.map entries) args.length 1
  | .array members, [index] => callArray members index
  | .array members, args => wrongArity (.array members) args.length 1
  | other, _ => throw (.notCallable other.typeName)

/-- Calls a function value. -/
def callFunction (registry : Registry) (deeper : Deeper) : FunctionItem → List Item → Eval Item
  | .named name arity, args =>
    if args.length = arity then callNamed registry deeper name args
    else wrongArity (.function (.named name arity)) args.length arity
  | .inline params result body, args =>
    if args.length = params.length then callInline deeper params result body args
    else wrongArity (.function (.inline params result body)) args.length params.length
  | .waiting base slots, args =>
    let arity := (FunctionItem.waiting base slots).arity
    if args.length = arity then
      match fillGaps slots args with
      | some values => callItem registry deeper base values
      | none => wrongArity (.function (.waiting base slots)) slots.length arity
    else wrongArity (.function (.waiting base slots)) args.length arity

end

/-- Calls a value with arguments that were evaluated elsewhere: the first error among them is the
result, and so is an error that the call has as its value. -/
def callWithValues (registry : Registry) (deeper : Deeper) (function : Item) (args : List Item) :
    Eval Item := do
  match args.findSome? Item.error? with
  | some e => throw e
  | none =>
    let value ← callItem registry deeper function args
    reading fun _ => value.toResult

end Eval

end TreeQuery
