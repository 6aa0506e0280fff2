import TreeQuery.Text.LetterTable

/-!
# Letters and numerals

Membership of a class that is given by the code points at which it changes, and the two classes
that names are made of: letters (`Alphabetic`) and numerals (`Nd`, `Nl`, `No`).
-/

namespace TreeQuery.Text

/-- A code point belongs to a class when an odd number of changes lies at or below it. -/
def inClass (changes : List Nat) (c : Char) : Bool :=
  (changes.takeWhile fun n => decide (n ≤ c.toNat)).length % 2 == 1

/-- The ASCII letters. -/
def isAsciiLetter (c : Char) : Bool :=
  (0x61 ≤ c.toNat && c.toNat ≤ 0x7A) || (0x41 ≤ c.toNat && c.toNat ≤ 0x5A)

/-- The ASCII digits. -/
def isDigit (c : Char) : Bool := 0x30 ≤ c.toNat && c.toNat ≤ 0x39

/-- A character with the Unicode property `Alphabetic`. -/
def isAlphabetic (c : Char) : Bool :=
  if c.toNat < 128 then isAsciiLetter c else inClass alphabeticChanges c

/-- A character of one of the general categories `Nd`, `Nl` and `No`. -/
def isNumeral (c : Char) : Bool :=
  if c.toNat < 128 then isDigit c else inClass numeralChanges c

/-- A letter or a numeral. -/
def isAlphanumeric (c : Char) : Bool := isAlphabetic c || isNumeral c

end TreeQuery.Text
