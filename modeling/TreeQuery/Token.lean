/-!
# Tokens

The words of the expression language. Operators that are spelled like names are names here: their
place in an expression tells them apart, and so every one of them can name an element too.
-/

namespace TreeQuery

/-- The kind of a token. -/
inductive TokenKind where
  | integer | decimal | double | string | name
  | leftParen | rightParen | leftBracket | rightBracket | leftBrace | rightBrace
  | comma | dollar | dot | dotDot | at | colon | colonColon | assign | question | hash | bang
  | slash | doubleSlash | pipe | concat | plus | minus | star
  | eq | notEq | lt | le | gt | ge | precedes | follows | arrow
  | illegal | eof
  deriving DecidableEq

/-- A piece of an expression, with the exact text it was read from. -/
structure Token where
  /-- The kind of the token. -/
  kind : TokenKind
  /-- The text of the token. -/
  text : String
  /-- How many bytes of the expression precede it. -/
  offset : Nat
  /-- Whether blanks or a comment stand in front of it, or nothing at all does. -/
  spaced : Bool
  deriving DecidableEq

/-- Whether a token is the given word. -/
def Token.isWord (t : Token) (word : String) : Bool := t.kind == .name && t.text == word

/-- The operators and brackets; those of two characters come first. -/
def symbols : List (List Char × TokenKind) := [
  (['<', '<'], .precedes), (['>', '>'], .follows), (['<', '='], .le), (['>', '='], .ge),
  (['!', '='], .notEq), (['=', '>'], .arrow), (['|', '|'], .concat), (['/', '/'], .doubleSlash),
  ([':', ':'], .colonColon), ([':', '='], .assign), (['.', '.'], .dotDot),
  (['('], .leftParen), ([')'], .rightParen), (['['], .leftBracket), ([']'], .rightBracket),
  (['\x7b'], .leftBrace), (['\x7d'], .rightBrace), ([','], .comma), (['$'], .dollar),
  (['.'], .dot), (['@'], .at), ([':'], .colon), (['?'], .question), (['#'], .hash),
  (['!'], .bang), (['/'], .slash), (['|'], .pipe), (['+'], .plus), (['-'], .minus),
  (['*'], .star), (['='], .eq), (['<'], .lt), (['>'], .gt)]

/-- How tightly an operator binds what stands in front of it, loosest first. -/
inductive Precedence where
  | comma | control | or | and | comparison | concat | range | additive | multiplicative
  | setOperator | typeOperator | arrow | unary | simpleMap | path | chain
  deriving DecidableEq

/-- The place of a precedence in the table. -/
def Precedence.rank (p : Precedence) : Nat := p.ctorIdx

/-- The operators that are spelled like names. -/
def infixWords : List (String × Precedence) := [
  ("or", .or), ("and", .and),
  ("eq", .comparison), ("ne", .comparison), ("lt", .comparison), ("le", .comparison),
  ("gt", .comparison), ("ge", .comparison), ("is", .comparison), ("to", .range),
  ("div", .multiplicative), ("idiv", .multiplicative), ("mod", .multiplicative),
  ("union", .setOperator), ("intersect", .setOperator), ("except", .setOperator),
  ("instance", .typeOperator), ("treat", .typeOperator), ("castable", .typeOperator),
  ("cast", .typeOperator)]

/-- How tightly a token binds when it follows a complete operand. -/
def Token.infixPrecedence? (t : Token) : Option Precedence :=
  match t.kind with
  | .eq | .notEq | .lt | .le | .gt | .ge | .precedes | .follows => some .comparison
  | .concat => some .concat
  | .plus | .minus => some .additive
  | .star => some .multiplicative
  | .pipe => some .setOperator
  | .arrow => some .arrow
  | .bang => some .simpleMap
  | .slash | .doubleSlash => some .path
  | .leftBracket | .leftParen | .question => some .chain
  | .name => infixWords.lookup t.text
  | _ => none

end TreeQuery
