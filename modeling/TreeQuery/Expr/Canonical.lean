import TreeQuery.Expr
import TreeQuery.Number.Binary.Text
import TreeQuery.Number.Decimal.Text
import TreeQuery.Text.Quoted

/-!
# The canonical text of expressions

One text for every expression: operators stand between parentheses, abbreviations are spelled out,
and a sequence keeps its parentheses wherever commas or operators are near.
-/

namespace TreeQuery

/-- A decimal literal always has a point. -/
def renderDecimalLiteral (d : Decimal) : String :=
  if d.scale = 0 then d.render ++ ".0" else d.render

/-- A cast of a text to a double, which stands for doubles that have no literal. -/
def renderDoubleCast (text : String) : String :=
  "(" ++ Text.quoted text ++ " cast as " ++ AtomicType.double.name ++ ")"

/-- The text of a literal. -/
def Literal.render : Literal → String
  | .integer value => Integer.render value
  | .decimal value => renderDecimalLiteral value
  | .double value =>
    match Binary.ofFloat? value with
    | some b => renderLiteral b
    | none => renderDoubleCast (renderDouble value)
  | .string value => Text.quoted value

/-- The text of a parameter. -/
def Param.render (p : Param) : String :=
  "$" ++ p.name.render ++
    match p.type with
    | none => ""
    | some type => " as " ++ type.render

/-- A text in parentheses. -/
def parenthesized (text : String) : String := "(" ++ text ++ ")"

/-- Texts with commas between them. -/
def commaSeparated (texts : List String) : String := ", ".intercalate texts

/-- A text in braces, behind what introduces it. -/
def braced (introduction text : String) : String :=
  introduction ++ " \x7b " ++ text ++ " \x7d"

namespace Expr

/-- The text of an expression among commas or next to an operator: a sequence that is not empty is
put in parentheses. -/
def operandText (e : Expr) (text : String) : String :=
  match e with
  | .sequence (_ :: _) => parenthesized text
  | _ => text

/-- The text of an expression with links behind it. A path is put in parentheses too, so that no
predicate belongs to its last step. -/
def baseText (e : Expr) (text : String) : String :=
  match e with
  | .path .. | .root | .rootPath _ | .step .. => parenthesized text
  | e => operandText e text

/-- The text of the target of an arrow: a variable stands as it is. -/
def targetText (e : Expr) (text : String) : String :=
  match e with
  | .var _ => text
  | _ => parenthesized text

/-- The text of an operator between two operands. -/
def infixText (left symbol right : String) : String :=
  parenthesized (left ++ " " ++ symbol ++ " " ++ right)

end Expr

mutual

/-- The canonical text of an expression. -/
def Expr.render : Expr → String
  | .literal value => value.render
  | .var name => "$" ++ name.render
  | .contextItem => "."
  | .sequence [] => "()"
  | .sequence (e :: es) => commaSeparated (Expr.renderOperands (e :: es))
  | .binary op left right =>
    Expr.infixText (Expr.operandText left left.render) op.symbol
      (Expr.operandText right right.render)
  | .signed sign operand =>
    parenthesized (sign.symbol ++ Expr.operandText operand operand.render)
  | .root => "/"
  | .rootPath relative => "/" ++ Expr.operandText relative relative.render
  | .path left right =>
    Expr.operandText left left.render ++ "/" ++ Expr.operandText right right.render
  | .step axis test predicates =>
    axis.name ++ "::" ++ test.render ++ Expr.renderPredicates predicates
  | .chain base links => Expr.baseText base base.render ++ Link.renderAll links
  | .call name args => name.render ++ parenthesized (commaSeparated (Argument.renderAll args))
  | .functionRef name arity => name.render ++ "#" ++ toString arity
  | .inlineFunction params result body =>
    braced ("function" ++ parenthesized (commaSeparated (params.map Param.render)) ++
      match result with
      | none => ""
      | some type => " as " ++ type.render) body.render
  | .forEach bindings body =>
    parenthesized ("for " ++ commaSeparated (Binding.renderAll "in" bindings) ++ " return " ++
      Expr.operandText body body.render)
  | .letIn bindings body =>
    parenthesized ("let " ++ commaSeparated (Binding.renderAll ":=" bindings) ++ " return " ++
      Expr.operandText body body.render)
  | .quantified quantifier bindings condition =>
    parenthesized (quantifier.keyword ++ " " ++ commaSeparated (Binding.renderAll "in" bindings) ++
      " satisfies " ++ Expr.operandText condition condition.render)
  | .ifThenElse condition whenTrue whenFalse =>
    parenthesized ("if " ++ parenthesized condition.render ++
      " then " ++ Expr.operandText whenTrue whenTrue.render ++
      " else " ++ Expr.operandText whenFalse whenFalse.render)
  | .mapOf [] => "map \x7b\x7d"
  | .mapOf (e :: es) => braced "map" (commaSeparated (Entry.renderAll (e :: es)))
  | .squareArray members => "[" ++ commaSeparated (Expr.renderOperands members) ++ "]"
  | .curlyArray content => braced "array" content.render
  | .arrowNamed base name args =>
    parenthesized (Expr.operandText base base.render ++ " => " ++ name.render ++
      parenthesized (commaSeparated (Argument.renderAll args)))
  | .arrowDynamic base target args =>
    parenthesized (Expr.operandText base base.render ++ " => " ++
      Expr.targetText target target.render ++
      parenthesized (commaSeparated (Argument.renderAll args)))
  | .lookup key => "?" ++ key.render
  | .instanceOf operand type =>
    Expr.infixText (Expr.operandText operand operand.render) "instance of" type.render
  | .treatAs operand type =>
    Expr.infixText (Expr.operandText operand operand.render) "treat as" type.render
  | .castableAs operand target =>
    Expr.infixText (Expr.operandText operand operand.render) "castable as" target.render
  | .castAs operand target =>
    Expr.infixText (Expr.operandText operand operand.render) "cast as" target.render

/-- The texts of expressions among commas. -/
def Expr.renderOperands : List Expr → List String
  | [] => []
  | e :: es => Expr.operandText e e.render :: Expr.renderOperands es

/-- The text of predicates, one behind another. -/
def Expr.renderPredicates : List Expr → String
  | [] => ""
  | e :: es => "[" ++ e.render ++ "]" ++ Expr.renderPredicates es

/-- The texts of bindings, with the word between variable and value. -/
def Binding.renderAll (word : String) : List Binding → List String
  | [] => []
  | ⟨name, value⟩ :: bs =>
    ("$" ++ name.render ++ " " ++ word ++ " " ++ Expr.operandText value value.render) ::
      Binding.renderAll word bs

/-- The texts of map entries. -/
def Entry.renderAll : List Entry → List String
  | [] => []
  | ⟨key, value⟩ :: es =>
    (Expr.operandText key key.render ++ ": " ++ Expr.operandText value value.render) ::
      Entry.renderAll es

/-- The texts of arguments. -/
def Argument.renderAll : List Argument → List String
  | [] => []
  | .value e :: as => Expr.operandText e e.render :: Argument.renderAll as
  | .placeholder :: as => "?" :: Argument.renderAll as

/-- The text of a lookup key. -/
def LookupKey.render : LookupKey → String
  | .name name => name
  | .index index => Integer.render index
  | .computed e => parenthesized e.render
  | .all => "*"

/-- The text of links, one behind another. -/
def Link.renderAll : List Link → String
  | [] => ""
  | .predicate e :: ls => "[" ++ e.render ++ "]" ++ Link.renderAll ls
  | .call args :: ls =>
    parenthesized (commaSeparated (Argument.renderAll args)) ++ Link.renderAll ls
  | .lookup key :: ls => "?" ++ key.render ++ Link.renderAll ls

end

end TreeQuery
