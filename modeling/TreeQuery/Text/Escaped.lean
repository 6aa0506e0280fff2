import TreeQuery.Text.GraphicTable
import TreeQuery.Text.Letter

/-!
# Escaped text

Text as it is shown to a reader who must see every character of it: between double quotes, with
the quote, the backslash, the line controls and everything that has no shape of its own escaped.
-/

namespace TreeQuery.Text

/-- A character without a shape of its own. The space has none and is yet shown as it is. -/
def isHidden (c : Char) : Bool :=
  if c.toNat < 128 then c.toNat < 0x20 || c.toNat == 0x7F else inClass hiddenChanges c

/-- A character that joins the one before it into a single shape. -/
def isExtending (c : Char) : Bool :=
  if c.toNat < 128 then false else inClass extendingChanges c

/-- A character by its number, in lower-case hexadecimal digits. -/
def escapeByNumber (c : Char) : List Char :=
  ['\\', 'u', '\x7b'] ++ Nat.toDigits 16 c.toNat ++ ['\x7d']

/-- One character as it is shown. -/
def escapeChar (c : Char) : List Char :=
  if c = '\x00' then ['\\', '0']
  else if c = '\t' then ['\\', 't']
  else if c = '\r' then ['\\', 'r']
  else if c = '\n' then ['\\', 'n']
  else if c = '\\' then ['\\', '\\']
  else if c = '\x22' then ['\\', '\x22']
  else if isExtending c || isHidden c then escapeByNumber c
  else [c]

/-- A string as it is shown, between double quotes. -/
def escaped (s : String) : String :=
  String.ofList (['\x22'] ++ s.toList.flatMap escapeChar ++ ['\x22'])

end TreeQuery.Text
