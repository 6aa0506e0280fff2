import TreeQuery.Markup.Reference

/-!
# Texts between tags and between quotes

What is written becomes text in two steps. References are read first; after that a character is
known either as written or as referred to. Line ends are settled then, and only written characters
take part in that: what is referred to is meant as it is.
-/

namespace TreeQuery.Markup

/-- A character of a text, and how the text gives it. -/
inductive Piece
  /-- A character that stands in the text. -/
  | written (c : Char)
  /-- A character that a reference stands for. -/
  | referred (c : Char)
  deriving DecidableEq

namespace Piece

/-- Reads references. The pieces so far come in reverse order, and at most so many steps are
taken. -/
def readFrom : Nat → List Piece → List Char → Option (List Piece)
  | _, done, [] => some done.reverse
  | 0, _, _ :: _ => none
  | steps + 1, done, c :: cs =>
    if c = '&' then do
      let (d, rest) ← scanReference? cs
      readFrom steps (referred d :: done) rest
    else readFrom steps (written c :: done) cs

/-- Reads the references of a text. A step takes at least one character, so that there are enough
steps. -/
def read? (cs : List Char) : Option (List Piece) := readFrom cs.length [] cs

/-- The text of pieces behind a text in reverse order. A written carriage return becomes a line feed
and takes in a line feed that is written behind it. It stays itself in front of a reference, and
between a reference and the end. -/
def linesFrom (done : List Char) (referredBefore : Bool) : List Piece → List Char
  | [] => done.reverse
  | referred c :: ps => linesFrom (c :: done) true ps
  | written c :: ps =>
    if c = '\r' then
      match ps with
      | [] => ((if referredBefore then c else '\n') :: done).reverse
      | referred d :: qs => linesFrom (d :: c :: done) true qs
      | written d :: qs =>
        if d = '\n' then linesFrom ('\n' :: done) false qs
        else linesFrom ('\n' :: done) false (written d :: qs)
    else linesFrom (c :: done) false ps

/-- The text of pieces between tags. -/
def lines (ps : List Piece) : List Char := linesFrom [] false ps

/-- The text of pieces in an attribute, behind a text in reverse order. -/
def spacedFrom (done : List Char) : List Piece → List Char
  | [] => done.reverse
  | referred c :: ps => spacedFrom (c :: done) ps
  | written c :: ps =>
    if c = '\r' && ps.head? == some (written '\n') then spacedFrom done ps
    else spacedFrom ((if isSpace c then ' ' else c) :: done) ps

/-- The text of pieces in an attribute. Every line end and every tab is a space; a carriage return
and the line feed behind it are one. -/
def spaced (ps : List Piece) : List Char := spacedFrom [] ps

end Piece

/-- The text that is written between tags. The end of a verbatim section may not stand in it. -/
def characterData? (cs : List Char) : Option String :=
  if Text.occurs "]]>".toList cs then none
  else (Piece.read? cs).map fun ps => String.ofList (Piece.lines ps)

/-- The text of a verbatim section, which has no references. -/
def verbatim (cs : List Char) : String := String.ofList (Piece.lines (cs.map .written))

/-- The value that is written between the quotes of an attribute. -/
def attributeValue? (cs : List Char) : Option String :=
  (Piece.read? cs).map fun ps => String.ofList (Piece.spaced ps)

end TreeQuery.Markup
