import TreeQuery.Markup.Scan

/-!
# References

A reference stands for one character. It names the character, or it gives its number in decimal or
in hexadecimal; it starts with an ampersand and ends with a semicolon.
-/

namespace TreeQuery.Markup

/-- The value of a digit in a base up to sixteen. -/
def digitValue? (base : Nat) (c : Char) : Option Nat :=
  let n := c.toNat
  let value :=
    if 0x30 ≤ n && n ≤ 0x39 then n - 0x30
    else if 0x41 ≤ n && n ≤ 0x46 then n - 0x41 + 10
    else if 0x61 ≤ n && n ≤ 0x66 then n - 0x61 + 10
    else base
  if value < base then some value else none

/-- The number that digits stand for. There has to be a digit, and the number has to fit in 32
bits. -/
def digitsValue? (base : Nat) (cs : List Char) : Option Nat :=
  if cs.isEmpty then none
  else
    let n := cs.foldl (fun n c => base * n + (digitValue? base c).getD 0) 0
    if n < UInt32.size then some n else none

/-- The character of a number. A number that is no character's stands for the replacement
character. -/
def characterOf (n : Nat) : Char := if n.isValidChar then Char.ofNat n else '\uFFFD'

/-- The character of a number in a base, up to the end of its digits. -/
def scanNumber? (base : Nat) (cs : List Char) : Option (Char × List Char) := do
  let (digits, rest) := cs.span fun c => (digitValue? base c).isSome
  let c := characterOf (← digitsValue? base digits)
  guard (isAllowed c)
  return (c, rest)

/-- The names of characters that mean something in markup. -/
def characterNames : List (String × Char) :=
  [("quot", '\x22'), ("amp", '&'), ("apos", '\x27'), ("lt", '<'), ("gt", '>')]

/-- The character of a name. -/
def scanNamed? (cs : List Char) : Option (Char × List Char) := do
  let (name, rest) ← scanPlainName? cs
  return (← characterNames.lookup name, rest)

/-- The character that a reference stands for, from behind its ampersand. -/
def scanReference? (cs : List Char) : Option (Char × List Char) := do
  let (c, rest) ← match cs with
    | '#' :: 'x' :: ds => scanNumber? 16 ds
    | '#' :: ds => scanNumber? 10 ds
    | _ => scanNamed? cs
  return (c, ← Text.behind? ";" rest)

end TreeQuery.Markup
