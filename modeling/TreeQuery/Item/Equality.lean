import TreeQuery.Expr.Equality
import TreeQuery.Item

/-!
# Equality of items

Two values are the same when they are built the same way from the same parts. Numbers of one type
are compared as numbers, so a double that is not a number differs even from itself, and maps are
compared without regard to the order of their entries.
-/

namespace TreeQuery

mutual

/-- Whether two values are the same. -/
def Item.same : Item → Item → Bool
  | .integer a, .integer b => a == b
  | .decimal a, .decimal b => a == b
  | .double a, .double b => a == b
  | .string a, .string b => a == b
  | .boolean a, .boolean b => a == b
  | .sequence as, .sequence bs => Item.sameAll as bs
  | .array as, .array bs => Item.sameAll as bs
  | .map as, .map bs => as.length == bs.length && Item.sameEntries as bs
  | .node a, .node b => a == b
  | .function f, .function g => f.same g
  | .error a, .error b => a == b
  | .nil, .nil => true
  | _, _ => false

/-- Whether two functions are the same. -/
def FunctionItem.same : FunctionItem → FunctionItem → Bool
  | .named n a, .named m b => n == m && a == b
  | .inline ps r a, .inline qs s b => ps == qs && r == s && a.same b
  | .waiting a as, .waiting b bs => a.same b && Item.sameArguments as bs
  | _, _ => false

/-- Whether two lists of values are the same. -/
def Item.sameAll : List Item → List Item → Bool
  | [], [] => true
  | a :: as, b :: bs => a.same b && Item.sameAll as bs
  | _, _ => false

/-- Whether two lists of arguments have the same values and the same gaps. -/
def Item.sameArguments : List (Option Item) → List (Option Item) → Bool
  | [], [] => true
  | none :: as, none :: bs => Item.sameArguments as bs
  | some a :: as, some b :: bs => a.same b && Item.sameArguments as bs
  | _, _ => false

/-- Whether every entry is among those of a table. -/
def Item.sameEntries : List (MapKey × Item) → Table Item → Bool
  | [], _ => true
  | (key, a) :: as, bs =>
    (match Table.get? key bs with
      | some b => a.same b
      | none => false) && Item.sameEntries as bs

end

end TreeQuery
