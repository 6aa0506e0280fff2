/-!
# Commas inside parentheses

Whether the text behind an opening parenthesis has a comma of its own, before that parenthesis is
closed. Brackets of all kinds nest alike, and what stands in quotes or comments does not count.
-/

namespace TreeQuery

/-- What a character of an expression belongs to. -/
inductive ScanMode where
  | code
  /-- A comment with so many comments around it. -/
  | comment (outer : Nat)
  /-- A string that is closed by this quote. -/
  | quoted (q : Char)

/-- Whether a character opens a group. -/
def isOpening (c : Char) : Bool := c == '(' || c == '[' || c == '\x7b'

/-- Whether a character closes a group. -/
def isClosing (c : Char) : Bool := c == ')' || c == ']' || c == '\x7d'

/-- Whether a comma outside so many open groups comes before the end of the group around them. -/
def commaAhead : ScanMode → Nat → List Char → Bool
  | .comment outer, depth, '(' :: ':' :: cs => commaAhead (.comment (outer + 1)) depth cs
  | .comment 0, depth, ':' :: ')' :: cs => commaAhead .code depth cs
  | .comment (outer + 1), depth, ':' :: ')' :: cs => commaAhead (.comment outer) depth cs
  | .comment outer, depth, _ :: cs => commaAhead (.comment outer) depth cs
  | .quoted q, depth, c :: cs =>
    if c = q then
      match cs with
      | d :: ds =>
        if d = q then commaAhead (.quoted q) depth ds else commaAhead .code depth (d :: ds)
      | [] => false
    else commaAhead (.quoted q) depth cs
  | .code, depth, '(' :: ':' :: cs => commaAhead (.comment 0) depth cs
  | .code, depth, c :: cs =>
    if c == '\x22' || c == '\x27' then commaAhead (.quoted c) depth cs
    else if isOpening c then commaAhead .code (depth + 1) cs
    else if isClosing c then
      match depth with
      | 0 => false
      | depth + 1 => commaAhead .code depth cs
    else if c == ',' && depth == 0 then true
    else commaAhead .code depth cs
  | _, _, [] => false

/-- Whether a comma belongs to the group that was opened in front of the text. -/
def hasOwnComma (text : List Char) : Bool := commaAhead .code 0 text

end TreeQuery
