import TreeQuery.Evaluation.Call
import TreeQuery.Evaluation.Path
import TreeQuery.Expr.Parser
import TreeQuery.Operator.Comparison
import TreeQuery.Operator.Joining

/-!
# Evaluation

The value of an expression in a context. Expressions are evaluated by structure; a call goes one
level deeper, and how many levels are left is what bounds an evaluation. The context is the same
after an evaluation as before, whether it has a value or fails.
-/

namespace TreeQuery

/-- The value of a literal. -/
def Literal.toItem : Literal → Item
  | .integer value => .integer value
  | .decimal value => .decimal value
  | .double value => .double value
  | .string value => .string value

namespace Eval

/-- The value of an operator that needs both its operands. -/
def strictBinary (op : BinaryOp) (left right : Item) : Eval Item :=
  reading fun c =>
    match op with
    | .arithmetic op => left.arithmetic c.forest op right
    | .comparison op => left.compare c.forest op right
    | .concat => left.concat c.forest right
    | .range => left.range c.forest c.limits.range right
    | .nodes op => left.combineNodes c.forest op right
    | .and | .or | .simpleMap => .ok right

/-- The truth of what an expression evaluates to. -/
def truth (e : Eval Item) : Eval Bool := do
  let value ← e
  reading fun _ => value.truth

/-- The value of a binary operator. The right operand of `and` and `or` is evaluated only if the left
one leaves the value open, that of `!` once for every item of the left one. -/
def binary (op : BinaryOp) (left right : Eval Item) : Eval Item := do
  match op with
  | .and => if ← truth left then return .boolean (← truth right) else return .boolean false
  | .or => if ← truth left then return .boolean true else return .boolean (← truth right)
  | .simpleMap => return .ofList (← forEachItem (← left) right)
  | op =>
    let l ← left
    let r ← right
    strictBinary op l r

/-- The arguments of a call, if none of them is left open. -/
def completeArguments (args : List (Option Item)) : Option (List Item) := args.mapM id

/-- Calls a function by its name, or makes a call that waits for the arguments that are left open. -/
def callByName (registry : Registry) (deeper : Deeper) (name : QName) (args : List (Option Item)) :
    Eval Item :=
  match completeArguments args with
  | some args => callNamed registry deeper name args
  | none =>
    reading fun _ => do
      let function ← registry.reference name args.length
      return .function (.waiting function args)

/-- Calls a value, or makes a call that waits for the arguments that are left open. -/
def callByValue (registry : Registry) (deeper : Deeper) (function : Item)
    (args : List (Option Item)) : Eval Item :=
  match completeArguments args with
  | some args => callItem registry deeper function args
  | none => do
    let arity ← reading fun _ => function.arity
    if arity = args.length then return .function (.waiting function args)
    else wrongArity function args.length arity

/-- The value of a variable. -/
def variableValue (name : QName) : Eval Item :=
  reading fun c =>
    match c.lookup? name with
    | some value => .ok value
    | none => .error (.undefinedVariable name.render)

/-- A value that must have a type. -/
def treatAs (type : SequenceType) (value : Item) : Eval Item :=
  reading fun c =>
    if value.hasType c.forest type then .ok value
    else .error (.typeError (value.typeName ++ " cannot be treated as " ++ type.render))

/-- Whether a cast has a value. -/
def isCastable (forest : Forest) (target : SingleType) (value : Item) : Bool :=
  match value.cast forest target with
  | .ok _ => true
  | .error _ => false

/-- The key of a map entry. -/
def mapKey (key : Item) : Eval MapKey :=
  reading fun c => do
    match ← key.atomizeOptional c.forest with
    | some key => .ok (.ofAtomic key)
    | none => .error (.cardinality "exactly one map key" 0)

mutual

/-- The value of an expression. -/
def expr (registry : Registry) (deeper : Deeper) : Expr → Eval Item
  | .literal value => pure value.toItem
  | .var name => variableValue name
  | .contextItem => reading Context.contextItem
  | .sequence members => do return .ofList (← exprs registry deeper members)
  | .binary op left right => binary op (expr registry deeper left) (expr registry deeper right)
  | .signed sign operand => do
    let value ← expr registry deeper operand
    reading fun c => value.withSign c.forest sign
  | .root => reading fun c => c.rootNode.map .node
  | .rootPath relative => do
    let root ← reading Context.rootNode
    followPath (.node root) (expr registry deeper relative)
  | .path left right => do
    followPath (← expr registry deeper left) (expr registry deeper right)
  | .step axis test predicates => do
    let nodes ← reading fun c => c.stepNodes axis test predicates
    return .ofList (← filtered registry deeper (nodes.map .node) predicates)
  | .chain base ls => do
    links registry deeper (← expr registry deeper base) ls
  | .call name args => do
    callByName registry deeper name (← arguments registry deeper args)
  | .functionRef name arity => reading fun _ => registry.reference name arity
  | .inlineFunction params result body => pure (.function (.inline params result body))
  | .forEach bindings body => do
    return .ofList (← forEach registry deeper (expr registry deeper body) bindings)
  | .letIn bindings body => inScope (letIn registry deeper (expr registry deeper body) bindings)
  | .quantified quantifier bindings condition => do
    return .boolean
      (← quantified registry deeper quantifier (expr registry deeper condition) bindings)
  | .ifThenElse condition whenTrue whenFalse => do
    if ← truth (expr registry deeper condition) then expr registry deeper whenTrue
    else expr registry deeper whenFalse
  | .mapOf es => do
    let table ← entries registry deeper es
    reading fun _ => (Table.ofEntries table).map .map
  | .squareArray members => do return .array (← exprs registry deeper members)
  | .curlyArray content => do return .array (← expr registry deeper content).items
  | .arrowNamed base name args => do
    let first ← expr registry deeper base
    callByName registry deeper name (some first :: (← arguments registry deeper args))
  | .arrowDynamic base target args => do
    let first ← expr registry deeper base
    let rest ← arguments registry deeper args
    callByValue registry deeper (← expr registry deeper target) (some first :: rest)
  | .lookup key => do
    lookup registry deeper (← reading Context.contextItem) key
  | .instanceOf operand type => do
    let value ← expr registry deeper operand
    reading fun c => .ok (.boolean (value.hasType c.forest type))
  | .treatAs operand type => do treatAs type (← expr registry deeper operand)
  | .castableAs operand target => do
    let value ← expr registry deeper operand
    reading fun c => .ok (.boolean (isCastable c.forest target value))
  | .castAs operand target => do
    let value ← expr registry deeper operand
    reading fun c => value.cast c.forest target

/-- The values of expressions. -/
def exprs (registry : Registry) (deeper : Deeper) : List Expr → Eval (List Item)
  | [] => pure []
  | e :: es => do
    let value ← expr registry deeper e
    return value :: (← exprs registry deeper es)

/-- The items that satisfy all predicates, each of which counts positions among those that are left. -/
def filtered (registry : Registry) (deeper : Deeper) (items : List Item) : List Expr →
    Eval (List Item)
  | [] => pure items
  | e :: es => do
    filtered registry deeper (← filterItems items (expr registry deeper e)) es

/-- The arguments of a call; there is none where one is left open. -/
def arguments (registry : Registry) (deeper : Deeper) : List Argument → Eval (List (Option Item))
  | [] => pure []
  | .value e :: args => do
    let value ← expr registry deeper e
    return some value :: (← arguments registry deeper args)
  | .placeholder :: args => do return none :: (← arguments registry deeper args)

/-- A value with links behind it. -/
def links (registry : Registry) (deeper : Deeper) (value : Item) : List Link → Eval Item
  | [] => pure value
  | .predicate e :: ls => do
    links registry deeper (.ofList (← filterItems value.items (expr registry deeper e))) ls
  | .call args :: ls => do
    let args ← arguments registry deeper args
    links registry deeper (← callByValue registry deeper value args) ls
  | .lookup key :: ls => do
    links registry deeper (← lookup registry deeper value key) ls

/-- What a lookup finds in a value. -/
def lookup (registry : Registry) (deeper : Deeper) (value : Item) (key : LookupKey) : Eval Item :=
  match key with
  | .name name => reading fun _ => value.lookup (.name name) (some [.string name])
  | .index index => reading fun _ => value.lookup (.index index) (some [.integer index])
  | .all => reading fun _ => value.lookup .all none
  | .computed e => do
    let keys ← expr registry deeper e
    reading fun c => do value.lookup (.computed e) (some (← keys.atomize c.forest))

/-- The values of `body` for all choices of values for variables. -/
def forEach (registry : Registry) (deeper : Deeper) (body : Eval Item) : List Binding →
    Eval (List Item)
  | [] => do return [← body]
  | ⟨name, e⟩ :: bindings => do
    let value ← expr registry deeper e
    let found ← value.items.mapM fun item => inScope do
      bindVariable name item
      forEach registry deeper body bindings
    return found.flatten

/-- The value of `body` with variables bound one after another. -/
def letIn (registry : Registry) (deeper : Deeper) (body : Eval Item) : List Binding → Eval Item
  | [] => body
  | ⟨name, e⟩ :: bindings => do
    bindVariable name (← expr registry deeper e)
    letIn registry deeper body bindings

/-- Whether a condition holds for some or for every choice of values for variables. -/
def quantified (registry : Registry) (deeper : Deeper) (quantifier : Quantifier)
    (condition : Eval Item) : List Binding → Eval Bool
  | [] => truth condition
  | ⟨name, e⟩ :: bindings => do
    let value ← expr registry deeper e
    let holds (item : Item) : Eval Bool := inScope do
      bindVariable name item
      quantified registry deeper quantifier condition bindings
    match quantifier with
    | .some => value.items.anyM holds
    | .every => value.items.allM holds

/-- The keys and values of map entries. -/
def entries (registry : Registry) (deeper : Deeper) : List Entry → Eval (List (MapKey × Item))
  | [] => pure []
  | ⟨k, v⟩ :: es => do
    let key ← mapKey (← expr registry deeper k)
    let value ← expr registry deeper v
    return (key, value) :: (← entries registry deeper es)

end

/-- The error of a call that is nested too deep. -/
def limitReached {α : Type} : Eval α := reading fun c => .error (.recursionLimit c.limits.depth)

mutual

/-- The value of an expression when so many levels of calls are left, its own among them. -/
def exprAt (registry : Registry) : Nat → Expr → Eval Item
  | 0, _ => limitReached
  | levels + 1, e => expr registry ⟨exprAt registry levels, callAt registry levels⟩ e

/-- The value of a call when so many levels of calls are left. -/
def callAt (registry : Registry) : Nat → Item → List Item → Eval Item
  | 0, _, _ => limitReached
  | levels + 1, function, args =>
    callWithValues registry ⟨exprAt registry levels, callAt registry levels⟩ function args

end

/-- So many levels of calls are left in a context. -/
def levelsLeft (c : Context) : Nat := c.limits.depth - c.depth + 1

/-- Evaluates an expression. -/
def evaluate (registry : Registry) (e : Expr) : Eval Item := do
  exprAt registry (levelsLeft (← get)) e

/-- Calls a value. -/
def call (registry : Registry) (function : Item) (args : List Item) : Eval Item := do
  callAt registry (levelsLeft (← get)) function args

/-- Evaluates an expression. An error that is its value counts as a failure. -/
def result (registry : Registry) (e : Expr) : Eval Item := do
  let value ← evaluate registry e
  reading fun _ => value.toResult

end Eval

/-- The value of an expression given as text, and the context that is left. -/
def run (registry : Registry) (text : String) (c : Context) : Except QueryError Item × Context :=
  match Expr.parse text with
  | .error e => (.error e, c)
  | .ok e =>
    let (result, c) := (Eval.result registry e).run.run c
    (result.mapError .ofEval, c)

end TreeQuery
