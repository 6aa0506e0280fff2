import TreeQuery.Atomic.Cast
import TreeQuery.Text.Quoted

/-!
# Keys of maps

A key is an atomic value without its type: a number that is an integer is stored as one, whatever
type it came with, and an untyped text is a text. So keys can be compared for identity.
-/

namespace TreeQuery

/-- A key of a map. -/
inductive MapKey where
  | string (value : String)
  | boolean (value : Bool)
  | integer (value : Int64)
  /-- A decimal that is no 64-bit integer. -/
  | decimal (value : Decimal)
  /-- A double that is no 64-bit integer, by its bits. -/
  | double (bits : UInt64)
  deriving DecidableEq

namespace MapKey

/-- The bits that stand for every double that is not a number. -/
def notANumberBits : UInt64 := 0x7ff8000000000000

/-- The key of a decimal. -/
def ofDecimal (d : Decimal) : MapKey :=
  match if d.isWhole then d.toInt64? else none with
  | some i => .integer i
  | none => .decimal d.normalize

/-- The key of a double. -/
def ofDouble (x : Float) : MapKey :=
  match Binary.ofFloat? x with
  | none => .double (if x.isNaN then notANumberBits else x.toBits)
  | some b =>
    match if b.isWhole then Integer.fit? b.truncated else none with
    | some i => .integer i
    | none => .double x.toBits

/-- The key of an atomic value. -/
def ofAtomic : Atomic → MapKey
  | .string s | .untyped s => .string s
  | .boolean b => .boolean b
  | .integer i => .integer i
  | .decimal d => ofDecimal d
  | .double x => ofDouble x

/-- The value that a key stands for. -/
def toAtomic : MapKey → Atomic
  | .string s => .string s
  | .boolean b => .boolean b
  | .integer i => .integer i
  | .decimal d => .decimal d
  | .double bits => .double (Float.ofBits bits)

/-- The text of a key: a text in quotes, everything else as its value. -/
def render : MapKey → String
  | .string s => Text.quoted s
  | key => key.toAtomic.text

end MapKey

end TreeQuery
