import TreeQuery.Number.Binary.Shortest
import TreeQuery.Text.Blank
import TreeQuery.Text.Letter

/-!
# The text of doubles

A double is written with its shortest digits: `renderDouble` never uses an exponent, `renderLiteral`
always does. Reading takes an optional sign, digits with an optional point, and an optional exponent,
and finds the nearest double exactly. Of an exponent only so much counts as can matter behind fewer than
65536 digits.
-/

namespace TreeQuery

open Binary

/-- Digits and a power of ten, without an exponent. -/
def positional (d : Nat) (place : Int) : List Char :=
  let ds := Nat.toDigits 10 d
  if 0 ≤ place then ds ++ List.replicate place.toNat '0'
  else
    let places := (-place).toNat
    let ds := List.replicate (places + 1 - ds.length) '0' ++ ds
    ds.take (ds.length - places) ++ '.' :: ds.drop (ds.length - places)

/-- The text of a double as a value: `NaN`, `INF`, `-INF`, or its shortest digits in place. -/
def renderDouble (x : Float) : String :=
  match ofFloat? x with
  | none => if x.isNaN then "NaN" else if 0 < x then "INF" else "-INF"
  | some b =>
    let sign := if b.negative then ['-'] else []
    if b.significand = 0 then String.ofList (sign ++ ['0'])
    else
      let (d, place) := shortest b
      String.ofList (sign ++ positional d place)

/-- The text of a finite double as a literal: one digit, the others behind a point, an exponent. -/
def renderLiteral (b : Binary) : String :=
  let sign := if b.negative then ['-'] else []
  if b.significand = 0 then String.ofList (sign ++ ['0', 'e', '0'])
  else
    let (d, place) := shortest b
    let ds := Nat.toDigits 10 d
    let mantissa := if ds.length ≤ 1 then ds else ds.take 1 ++ '.' :: ds.drop 1
    String.ofList (sign ++ mantissa ++ 'e' :: (toString (place + (ds.length - 1 : Nat))).toList)

/-- The double nearest to `± digits * 10 ^ place`. What is far outside the range of doubles is told
from the number of digits alone. -/
def doubleOfDigits (negative : Bool) (d : Nat) (place : Int) : Float :=
  let top := (digitCount d : Int) + place
  if d = 0 ∨ top < -400 then toFloat negative 0 1
  else if 400 < top then toFloat negative (tenTo 400) 1
  else if 0 ≤ place then toFloat negative (d * tenTo place.toNat) 1
  else toFloat negative d (tenTo (-place).toNat)

/-- Reads one more digit of an exponent. One of 65536 or more is large enough, and its further digits do
not count. -/
def extendExponent (e : Nat) (digit : Char) : Nat :=
  if e < twoTo 16 then e * 10 + (digit.toNat - 0x30) else e

/-- Reads the digits of an exponent, one or more. -/
def readExponentDigits? (cs : List Char) : Option Nat :=
  if cs.isEmpty || !cs.all Text.isDigit then none else some (cs.foldl extendExponent 0)

/-- Reads the exponent behind `e`: an optional sign and one digit or more. -/
def readExponent? : List Char → Option Int
  | '-' :: cs => (readExponentDigits? cs).map fun n => -(n : Int)
  | '+' :: cs => (readExponentDigits? cs).map fun n => (n : Int)
  | cs => (readExponentDigits? cs).map fun n => (n : Int)

/-- Whether a character marks the exponent of a double. -/
def isExponentMark (c : Char) : Bool := c == 'e' || c == 'E'

/-- Reads digits with an optional point (one digit at least) and an optional exponent. -/
def readMagnitude? (negative : Bool) (cs : List Char) : Option Float :=
  let whole := cs.takeWhile Text.isDigit
  let rest := cs.dropWhile Text.isDigit
  let pointed := rest.head? == some '.'
  let places := if pointed then rest.tail.takeWhile Text.isDigit else []
  let rest := if pointed then rest.tail.dropWhile Text.isDigit else rest
  if whole.isEmpty && places.isEmpty then none
  else
    let d := Integer.ofDigits (whole ++ places)
    match rest with
    | [] => some (doubleOfDigits negative d (-(places.length : Int)))
    | c :: cs =>
      if isExponentMark c then
        (readExponent? cs).map fun e => doubleOfDigits negative d (e - places.length)
      else none

/-- Lower case for the ASCII letters. -/
def asciiLower (c : Char) : Char :=
  if 0x41 ≤ c.toNat && c.toNat ≤ 0x5A then Char.ofNat (c.toNat + 0x20) else c

/-- Reads an unsigned number, or a word for one that is infinite or none at all, in any case. -/
def readUnsigned? (negative : Bool) (cs : List Char) : Option Float :=
  let word := cs.map asciiLower
  if word = ['i', 'n', 'f'] ∨ word = ['i', 'n', 'f', 'i', 'n', 'i', 't', 'y'] then
    some (if negative then -infinity else infinity)
  else if word = ['n', 'a', 'n'] then some notANumber
  else readMagnitude? negative cs

/-- Reads a double: an optional sign, then a number or a word for one. -/
def readNumber? : List Char → Option Float
  | '-' :: cs => readUnsigned? true cs
  | '+' :: cs => readUnsigned? false cs
  | cs => readUnsigned? false cs

/-- The unsigned words that are refused, in lower case, and one signed word. -/
def refusedWords : List String := ["inf", "nan", "infinity", "-infinity"]

/-- Reads a double as an untyped value is cast: blanks around it are dropped, `INF`, `+INF`, `-INF`
and `NaN` are spelled so, and the refused words are refused in every case. -/
def readDouble? (text : String) : Option Float :=
  let cs := Text.trim text.toList
  let s := String.ofList cs
  if s = "INF" ∨ s = "+INF" then some infinity
  else if s = "-INF" then some (-infinity)
  else if s = "NaN" then some notANumber
  else if refusedWords.contains (String.ofList (cs.map asciiLower)) then none
  else readNumber? cs

end TreeQuery
