import TreeQuery.Expr
import TreeQuery.Expr.Grouping
import TreeQuery.Expr.Parser.Names
import TreeQuery.Number.Binary.Text
import TreeQuery.Number.Decimal.Text

/-!
# Reading expressions

An operand is read first; as long as an operator follows that binds tighter than the one in front of
the operand, it takes what has been read as its left side. Every operand counts as a level of
nesting, and there are no more than 128 of them. All readers of operands inside take as arguments
how to read an operand one level deeper, and how many levels are left below that one.
-/

namespace TreeQuery.Parser

/-- How to read an operand behind an operator of some precedence. -/
abbrev OperandParser := Precedence → Parser Expr

/-- Reads an expression between commas. -/
def single (operand : OperandParser) : Parser Expr := operand .comma

/-- Reads expressions with commas between them. -/
def commaExpr (operand : OperandParser) : Parser Expr := do
  let first ← single operand
  if ← isAt .comma then return Expr.ofMembers (first :: (← many .comma (single operand)))
  else return first

/-- Reads the predicates that follow. -/
def predicates (operand : OperandParser) : Parser (List Expr) :=
  many .leftBracket do
    let e ← commaExpr operand
    let _ ← expect .rightBracket "']'"
    return e

/-- The text of an expression from an offset on. -/
def textFrom : Nat → List Char → List Char
  | _, [] => []
  | offset, c :: cs => if offset = 0 then c :: cs else textFrom (offset - c.utf8Size) cs

/-- Whether the next token, an opening parenthesis, is followed by a comma of its own. -/
def isAtList : Parser Bool := fun s =>
  let t := s.tokens.headD (endToken s)
  .still s (hasOwnComma (textFrom (t.offset + t.text.utf8ByteSize) s.source))

/-- Reads an expression in parentheses: nothing, a sequence, or one expression. -/
def group (operand : OperandParser) : Parser Expr := do
  let list ← isAtList
  let _ ← advance
  if ← eat .rightParen then return .empty
  let e ←
    if list then Expr.ofMembers <$> commaList (single operand)
    else single operand
  let _ ← expect .rightParen "')'"
  return e

/-- Reads an argument. -/
def argument (operand : OperandParser) : Parser Argument := do
  let next ← following
  if (← isAt .question) && (next == .comma || next == .rightParen) then
    let _ ← advance
    return .placeholder
  else return .value (← single operand)

/-- Reads arguments behind an opening parenthesis. -/
def arguments (operand : OperandParser) : Parser (List Argument) := do
  if ← eat .rightParen then return []
  let args ← commaList (argument operand)
  let _ ← expect .rightParen "')'"
  return args

/-- Reads the key of a lookup. -/
def lookupKey (operand : OperandParser) : Parser LookupKey := do
  let token ← current
  match token.kind with
  | .name =>
    let _ ← advance
    return .name token.text
  | .integer =>
    let _ ← advance
    match Integer.read? token.text.toList with
    | some i => return .index i
    | none =>
      failed (errorAt token "integer key in range")
      return .index 0
  | .leftParen => return .computed (← group operand)
  | .star =>
    let _ ← advance
    return .all
  | _ =>
    failed (error "lookup key")
    return .all

/-- Reads a step along an axis. A test for attributes looks for them along their own axis. -/
def step (operand : OperandParser) (levels : Nat) (axis : Axis) : Parser Expr := do
  let test ← nodeTest levels
  let axis :=
    match test, axis with
    | .kind (.attribute _), .child => .attribute
    | _, axis => axis
  return .step axis test (← predicates operand)

/-- The value of an integer literal, which is a decimal if it does not fit. -/
def integerLiteral (token : Token) : Parser Expr := do
  match Integer.read? token.text.toList, Decimal.read? token.text.toList with
  | some i, _ => return .literal (.integer i)
  | none, some d => return .literal (.decimal d)
  | none, none =>
    failed (errorAt token "integer literal in range")
    return .literal (.integer 0)

/-- The digits of a decimal literal, with a zero on each side of the point. -/
def completeDecimal (cs : List Char) : List Char :=
  let cs := if cs.head? = some '.' then '0' :: cs else cs
  if cs.getLast? = some '.' then cs ++ ['0'] else cs

/-- The value of a decimal literal. -/
def decimalLiteral (token : Token) : Parser Expr := do
  match Decimal.read? (completeDecimal token.text.toList) with
  | some d => return .literal (.decimal d)
  | none =>
    failed (errorAt token "decimal literal in range")
    return .literal (.decimal .zero)

/-- The value of a double literal. -/
def doubleLiteral (token : Token) : Parser Expr := do
  match readNumber? token.text.toList with
  | some x => return .literal (.double x)
  | none =>
    failed (errorAt token "double literal")
    return .literal (.double notANumber)

/-- Reads a variable and the expression behind it. -/
def binding (operand : OperandParser) (word : Parser Unit) : Parser Binding := do
  let _ ← expect .dollar "'$'"
  let name ← qualifiedName "variable name"
  word
  return { name, value := ← single operand }

/-- Reads bindings, the word behind them, and the expression that they are for. -/
def bindings (operand : OperandParser) (word : Parser Unit) (last : String) :
    Parser (List Binding × Expr) := do
  let _ ← advance
  let bs ← commaList (binding operand word)
  expectWord last
  return (bs, ← operand .control)

/-- Reads a choice between two expressions. -/
def choice (operand : OperandParser) : Parser Expr := do
  let _ ← advance
  let _ ← expect .leftParen "'('"
  let condition ← commaExpr operand
  let _ ← expect .rightParen "')'"
  expectWord "then"
  let whenTrue ← operand .control
  expectWord "else"
  return .ifThenElse condition whenTrue (← operand .control)

/-- Reads a type behind `as`, if that word comes next. -/
def typeBehindAs (levels : Nat) : Parser (Option SequenceType) := do
  if ← isAtWord "as" then
    let _ ← advance
    return some (← sequenceType levels)
  else return none

/-- Reads a parameter. -/
def parameter (levels : Nat) : Parser Param := do
  let _ ← expect .dollar "'$'"
  let name ← qualifiedName "parameter name"
  return { name, type := ← typeBehindAs levels }

/-- Reads what is between braces, which may be nothing. -/
def block (operand : OperandParser) : Parser Expr := do
  let e ← if ← isAt .rightBrace then pure Expr.empty else commaExpr operand
  let _ ← expect .rightBrace "'\x7d'"
  return e

/-- Reads a function without a name. -/
def inlineFunction (operand : OperandParser) (levels : Nat) : Parser Expr := do
  let _ ← advance
  let _ ← advance
  let params ←
    if ← eat .rightParen then pure []
    else do
      let ps ← commaList (parameter levels)
      let _ ← expect .rightParen "')'"
      pure ps
  let result ← typeBehindAs levels
  let _ ← expect .leftBrace "'\x7b'"
  return .inlineFunction params result (← block operand)

/-- Reads an entry of a map. -/
def entry (operand : OperandParser) : Parser Entry := do
  let key ← single operand
  let _ ← expect .colon "':'"
  return { key, value := ← single operand }

/-- Reads a map. -/
def mapConstructor (operand : OperandParser) : Parser Expr := do
  let _ ← advance
  let _ ← advance
  if ← eat .rightBrace then return .mapOf []
  let entries ← commaList (entry operand)
  let _ ← expect .rightBrace "'\x7d'"
  return .mapOf entries

/-- Reads an array with one member for every expression. -/
def squareArray (operand : OperandParser) : Parser Expr := do
  let _ ← advance
  if ← eat .rightBracket then return .squareArray []
  let members ← commaList (single operand)
  let _ ← expect .rightBracket "']'"
  return .squareArray members

/-- Reads an array with one member for every item. -/
def curlyArray (operand : OperandParser) : Parser Expr := do
  let _ ← advance
  let _ ← advance
  return .curlyArray (← block operand)

/-- Reads a step whose axis is spelled out. -/
def axisStep (operand : OperandParser) (levels : Nat) : Parser Expr := do
  let token ← advance
  let _ ← advance
  match Axis.ofName? token.text with
  | some axis => step operand levels axis
  | none =>
    failed (errorAt token "axis name")
    step operand levels .child

/-- The largest number of arguments that a function can be asked for. -/
def maxArity : Nat := UInt64.size - 1

/-- Reads the number of arguments behind `#`. -/
def arity : Parser Nat := do
  let token ← advance
  match Integer.readNat? token.text.toList with
  | some n =>
    if token.kind = .integer ∧ n ≤ maxArity then return n
    else
      failed (errorAt token "arity")
      return 0
  | none =>
    failed (errorAt token "arity")
    return 0

/-- Reads a call of a function, a function by its name, or a step to the children of a name. -/
def namedOperand (operand : OperandParser) : Parser Expr := do
  let start ← current
  let text ← takeName
  if ← eat .leftParen then
    let name ← nameOf start text
    return .call name (← arguments operand)
  else if ← eat .hash then
    let name ← nameOf start text
    return .functionRef name (← arity)
  else
    let test ← nameTestOf start text
    return .step .child test (← predicates operand)

/-- Reads an operand that starts with a name. What the name means is told by the token behind it. -/
def wordOperand (operand : OperandParser) (levels : Nat) : Parser Expr := do
  let word := (← current).text
  match word, ← following with
  | "for", .dollar =>
    let (bs, body) ← bindings operand (expectWord "in") "return"
    return .forEach bs body
  | "let", .dollar =>
    let (bs, body) ← bindings operand (do let _ ← expect .assign "':='") "return"
    return .letIn bs body
  | "some", .dollar =>
    let (bs, condition) ← bindings operand (expectWord "in") "satisfies"
    return .quantified .some bs condition
  | "every", .dollar =>
    let (bs, condition) ← bindings operand (expectWord "in") "satisfies"
    return .quantified .every bs condition
  | "if", .leftParen => choice operand
  | "function", .leftParen => inlineFunction operand levels
  | "map", .leftBrace => mapConstructor operand
  | "array", .leftBrace => curlyArray operand
  | _, .colonColon => axisStep operand levels
  | _, _ => if ← isAtKindTest then step operand levels .child else namedOperand operand

/-- Whether a token can start the path behind a leading `/`. -/
def startsPath (kind : TokenKind) : Bool :=
  kind == .name || kind == .star || kind == .at || kind == .dot || kind == .dotDot

/-- Whether a token that starts no operand is left for what comes after. -/
def endsOperand (kind : TokenKind) : Bool :=
  kind == .eof || kind == .rightParen || kind == .rightBracket || kind == .rightBrace ||
    kind == .comma

/-- Reads an operand up to the first operator behind it. -/
def primary (operand : OperandParser) (levels : Nat) : Parser Expr := do
  let token ← current
  match token.kind with
  | .integer => integerLiteral (← advance)
  | .decimal => decimalLiteral (← advance)
  | .double => doubleLiteral (← advance)
  | .string => return .literal (.string (String.ofList (Text.unquote (← advance).text.toList)))
  | .dollar =>
    let _ ← advance
    return .var (← qualifiedName "variable name")
  | .leftParen => group operand
  | .leftBracket => squareArray operand
  | .dot =>
    let _ ← advance
    return .contextItem
  | .dotDot =>
    let _ ← advance
    return .step .parent (.kind .anyNode) (← predicates operand)
  | .at =>
    let _ ← advance
    step operand levels .attribute
  | .slash =>
    let _ ← advance
    if startsPath (← current).kind then return .rootPath (← operand .path) else return .root
  | .doubleSlash =>
    let _ ← advance
    return .rootPath (.path .descendantOrSelf (← operand .path))
  | .minus =>
    let _ ← advance
    return .signed .minus (← operand .unary)
  | .plus =>
    let _ ← advance
    return .signed .plus (← operand .unary)
  | .question =>
    let _ ← advance
    return .lookup (← lookupKey operand)
  | .star => step operand levels .child
  | .name => wordOperand operand levels
  | kind =>
    failed (error "expression")
    if !endsOperand kind then
      let _ ← advance
    return .empty

/-- The operators that are spelled with symbols. -/
def symbolOperator? : TokenKind → Option BinaryOp
  | .plus => some (.arithmetic .add)
  | .minus => some (.arithmetic .sub)
  | .star => some (.arithmetic .mul)
  | .eq => some (.comparison (.general .eq))
  | .notEq => some (.comparison (.general .ne))
  | .lt => some (.comparison (.general .lt))
  | .le => some (.comparison (.general .le))
  | .gt => some (.comparison (.general .gt))
  | .ge => some (.comparison (.general .ge))
  | .precedes => some (.comparison (.node .precedes))
  | .follows => some (.comparison (.node .follows))
  | .concat => some .concat
  | .pipe => some (.nodes .union)
  | .bang => some .simpleMap
  | _ => none

/-- The operators that are spelled with words. -/
def wordOperators : List (String × BinaryOp) := [
  ("or", .or), ("and", .and),
  ("eq", .comparison (.value .eq)), ("ne", .comparison (.value .ne)),
  ("lt", .comparison (.value .lt)), ("le", .comparison (.value .le)),
  ("gt", .comparison (.value .gt)), ("ge", .comparison (.value .ge)),
  ("is", .comparison (.node .is)), ("to", .range),
  ("div", .arithmetic .div), ("idiv", .arithmetic .idiv), ("mod", .arithmetic .mod),
  ("union", .nodes .union), ("intersect", .nodes .intersect), ("except", .nodes .except)]

/-- The operator that a token stands for between two operands. -/
def binaryOperator? (token : Token) : Option BinaryOp :=
  if token.kind = .name then wordOperators.lookup token.text else symbolOperator? token.kind

/-- Reads the call behind an arrow. -/
def arrowCall (operand : OperandParser) (base : Expr) : Parser Expr := do
  let args (_ : Unit) : Parser (List Argument) := do
    if ← expect .leftParen "'('" then arguments operand else return []
  match (← current).kind with
  | .name =>
    let name ← qualifiedName "function name"
    return .arrowNamed base name (← args ())
  | .dollar =>
    let _ ← advance
    let target := Expr.var (← qualifiedName "variable name")
    return .arrowDynamic base target (← args ())
  | .leftParen =>
    let target ← group operand
    return .arrowDynamic base target (← args ())
  | _ =>
    failed (error "function after '=>'")
    return base

/-- Reads the type behind an operator on types. -/
def typeOperator (levels : Nat) (word : String) (left : Expr) : Parser (Option Expr) := do
  match word with
  | "instance" =>
    expectWord "of"
    return some (.instanceOf left (← sequenceType levels))
  | "treat" =>
    expectWord "as"
    return some (.treatAs left (← sequenceType levels))
  | "castable" =>
    expectWord "as"
    return some (.castableAs left (← singleType))
  | "cast" =>
    expectWord "as"
    return some (.castAs left (← singleType))
  | _ => return none

/-- Reads what follows `left`, behind the operator that was just taken. -/
def operatorRest (operand : OperandParser) (levels : Nat) (token : Token) (left : Expr)
    (precedence : Precedence) : Parser Expr := do
  match binaryOperator? token with
  | some op => return .binary op left (← operand precedence)
  | none =>
    match token.kind with
    | .slash => return .path left (← operand precedence)
    | .doubleSlash => return .path (.path left .descendantOrSelf) (← operand precedence)
    | .arrow => arrowCall operand left
    | .leftBracket =>
      let e ← commaExpr operand
      let _ ← expect .rightBracket "']'"
      return left.link (.predicate e)
    | .leftParen => return left.link (.call (← arguments operand))
    | .question => return left.link (.lookup (← lookupKey operand))
    | _ =>
      match ← typeOperator levels token.text left with
      | some e => return e
      | none =>
        failed (errorAt token "operator")
        return left

/-- Extends `left` by every operator that binds tighter than `least`. -/
def climb (operand : OperandParser) (levels : Nat) (least : Precedence) (left : Expr)
    (s : ParserState) : Parsed s Expr :=
  match h : s.tokens with
  | [] => .still s left
  | t :: ts =>
    match t.infixPrecedence? with
    | none => .still s left
    | some precedence =>
      if precedence.rank ≤ least.rank then .still s left
      else
        let r := operatorRest operand levels t left precedence { s with tokens := ts }
        let q := climb operand levels least r.value r.state
        ⟨q.value, q.state, by
          have hq := q.length_le
          have hr : r.state.tokens.length ≤ ts.length := r.length_le
          simp only [h, List.length_cons]
          omega⟩
termination_by s.tokens.length
decreasing_by all_goals
  exact Nat.lt_of_le_of_lt (operatorRest operand levels t left precedence _).length_le (by simp [h])

/-- Reads an operand behind an operator, with so many levels of nesting left. -/
def operandAt : Nat → OperandParser
  | 0, _ => do
    failed (error "shallower nesting")
    return .empty
  | levels + 1, least => nested do
    let left ← primary (operandAt levels) levels
    climb (operandAt levels) levels least left

/-- How deeply operands may be nested. -/
def maxNesting : Nat := 128

/-- Reads a whole expression. -/
def program : Parser Expr := do
  if ← isAt .eof then
    failed (error "expression")
    return .empty
  let e ← commaExpr (operandAt maxNesting)
  if !(← isAt .eof) then failed (error "end of input")
  return e

end TreeQuery.Parser

namespace TreeQuery.Expr

/-- Reads an expression: what could be made of the text, and every error in it. -/
def read (text : String) : Expr × List SyntaxError :=
  let source := text.toList
  let r := Parser.program { source, tokens := tokenize source, errors := [] }
  (r.value, r.state.errors.reverse)

/-- Reads an expression without errors. -/
def parse (text : String) : Except QueryError Expr :=
  match read text with
  | (e, []) => .ok e
  | (_, errors) => .error (.parse text errors)

end TreeQuery.Expr
