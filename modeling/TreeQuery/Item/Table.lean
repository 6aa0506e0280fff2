import TreeQuery.Error
import TreeQuery.Item.MapKey

/-!
# Tables

The entries of a map, in the order in which their keys were first put there. A new value for a key
takes the place of the old one.
-/

namespace TreeQuery

/-- Values under keys, in the order of their keys. -/
abbrev Table (V : Type) := List (MapKey × V)

namespace Table

/-- The keys in order. -/
def keys {V : Type} (t : Table V) : List MapKey := t.map Prod.fst

/-- The values in the order of their keys. -/
def values {V : Type} (t : Table V) : List V := t.map Prod.snd

/-- The value under a key. -/
def get? {V : Type} (key : MapKey) : Table V → Option V
  | [] => none
  | (k, v) :: t => if k = key then some v else get? key t

/-- Whether there is a value under a key. -/
def holds {V : Type} (key : MapKey) (t : Table V) : Bool := (get? key t).isSome

/-- Puts a value under a key: in place of the value that is there, or at the end. -/
def put {V : Type} (key : MapKey) (value : V) : Table V → Table V
  | [] => [(key, value)]
  | (k, v) :: t => if k = key then (k, value) :: t else (k, v) :: put key value t

/-- Adds entries whose keys must all be new. -/
def addNew {V : Type} (t : Table V) : List (MapKey × V) → Except EvalError (Table V)
  | [] => .ok t
  | (k, v) :: rest =>
    if holds k t then .error (.duplicateKey k.render) else addNew (t ++ [(k, v)]) rest

/-- The table of entries with different keys. -/
def ofEntries {V : Type} (entries : List (MapKey × V)) : Except EvalError (Table V) :=
  addNew [] entries

end Table

end TreeQuery
