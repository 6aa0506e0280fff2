/-!
# Operators

The operators between two operands, and their symbols.
-/

namespace TreeQuery

/-- An operation on two numbers. -/
inductive ArithmeticOp where
  | add | sub | mul | div | idiv | mod
  deriving DecidableEq

/-- The symbol of an arithmetic operator. -/
def ArithmeticOp.symbol : ArithmeticOp → String
  | .add => "+"
  | .sub => "-"
  | .mul => "*"
  | .div => "div"
  | .idiv => "idiv"
  | .mod => "mod"

/-- A relation between two ordered values. -/
inductive Relation where
  | eq | ne | lt | le | gt | ge
  deriving DecidableEq

/-- A relation between two nodes. -/
inductive NodeRelation where
  | is | precedes | follows
  deriving DecidableEq

/-- The three families of comparisons. -/
inductive Comparison where
  /-- `eq ne lt le gt ge`: between two single values. -/
  | value (relation : Relation)
  /-- `= != < <= > >=`: between any value of one operand and any of the other. -/
  | general (relation : Relation)
  /-- `is << >>`: between two nodes. -/
  | node (relation : NodeRelation)
  deriving DecidableEq

/-- The symbol of a comparison. -/
def Comparison.symbol : Comparison → String
  | .value .eq => "eq"
  | .value .ne => "ne"
  | .value .lt => "lt"
  | .value .le => "le"
  | .value .gt => "gt"
  | .value .ge => "ge"
  | .general .eq => "="
  | .general .ne => "!="
  | .general .lt => "<"
  | .general .le => "<="
  | .general .gt => ">"
  | .general .ge => ">="
  | .node .is => "is"
  | .node .precedes => "<<"
  | .node .follows => ">>"

/-- An operation on two sets of nodes. -/
inductive SetOp where
  | union | intersect | except
  deriving DecidableEq

/-- The symbol of a set operator. -/
def SetOp.symbol : SetOp → String
  | .union => "|"
  | .intersect => "intersect"
  | .except => "except"

/-- An operator between two operands. -/
inductive BinaryOp where
  | arithmetic (op : ArithmeticOp)
  | comparison (op : Comparison)
  | and
  | or
  | concat
  | range
  | nodes (op : SetOp)
  | simpleMap
  deriving DecidableEq

/-- The symbol of an operator. -/
def BinaryOp.symbol : BinaryOp → String
  | .arithmetic op => op.symbol
  | .comparison op => op.symbol
  | .and => "and"
  | .or => "or"
  | .concat => "||"
  | .range => "to"
  | .nodes op => op.symbol
  | .simpleMap => "!"

/-- A sign in front of an operand. -/
inductive Sign where
  | minus | plus
  deriving DecidableEq

/-- The symbol of a sign. -/
def Sign.symbol : Sign → String
  | .minus => "-"
  | .plus => "+"

/-- Whether one choice or all choices of values must satisfy a condition. -/
inductive Quantifier where
  | some | every
  deriving DecidableEq

/-- The keyword of a quantifier. -/
def Quantifier.keyword : Quantifier → String
  | .some => "some"
  | .every => "every"

end TreeQuery
