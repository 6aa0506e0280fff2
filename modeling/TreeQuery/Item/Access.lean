import TreeQuery.Expr.Canonical
import TreeQuery.Item.Atomize

/-!
# Access to maps and arrays

A map gives the value of a key, or nothing; an array gives the member at a position, counted from
one, and there must be one. Calls, lookups and functions all read maps and arrays this way.
-/

namespace TreeQuery

/-- The position in an array that a value stands for. An untyped text is read as an integer. -/
def Atomic.arrayIndex : Atomic → Except EvalError Int64
  | .integer i => .ok i
  | .untyped s =>
    match readInteger? s with
    | some i => .ok i
    | none => .error (.invalidCast AtomicType.untyped.name AtomicType.integer.name)
  | a => .error (.typeError ("array lookup needs an xs:integer key, got " ++ a.typeName))

namespace Item

/-- The member at a position. -/
def memberAt (members : List Item) (index : Int64) : Except EvalError Item :=
  let missing := EvalError.indexOutOfRange index members.length
  if index.toInt < 1 then .error missing
  else
    match members[index.toInt.toNat - 1]? with
    | some member => .ok member
    | none => .error missing

/-- The value of a key, or nothing. -/
def valueOf (entries : Table Item) (key : MapKey) : Item := (Table.get? key entries).getD empty

/-- What several keys give in a map: the values of those that it holds. -/
def valuesOf (entries : Table Item) (keys : List Atomic) : List Item :=
  keys.filterMap fun key => Table.get? (.ofAtomic key) entries

/-- What several positions give in an array. -/
def membersAt (members : List Item) (keys : List Atomic) : Except EvalError (List Item) :=
  keys.mapM fun key => do memberAt members (← key.arrayIndex)

/-- What some keys, or all of them, give in a map or an array. -/
def lookupIn (key : LookupKey) (keys : Option (List Atomic)) (item : Item) :
    Except EvalError (List Item) :=
  match item, keys with
  | .map entries, none => .ok (Table.values entries)
  | .map entries, some keys => .ok (valuesOf entries keys)
  | .array members, none => .ok members
  | .array members, some keys => membersAt members keys
  | item, _ =>
    .error (.typeError ("lookup '?" ++ key.render ++ "' needs a map or array, got " ++ item.typeName))

/-- What some keys, or all of them, give in the items of a value. -/
def lookup (key : LookupKey) (keys : Option (List Atomic)) (value : Item) : Except EvalError Item :=
  (value.items.mapM (lookupIn key keys)).map fun found => ofList found.flatten

end Item

end TreeQuery
