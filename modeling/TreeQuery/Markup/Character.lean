/-!
# Characters of a markup text

A markup text is made of the characters that a document may hold. Names are stricter: they start with
a letter-like character and go on with letter-like characters, digits and a few marks.
-/

namespace TreeQuery.Markup

/-- A character that separates the parts of a tag. -/
def isSpace (c : Char) : Bool := c == ' ' || c == '\t' || c == '\n' || c == '\r'

/-- A character that a document may hold: of the control characters below U+0020 only spaces, and
neither U+FFFE nor U+FFFF. -/
def isAllowed (c : Char) : Bool :=
  if c.toNat < 0x20 then isSpace c else c.toNat != 0xFFFE && c.toNat != 0xFFFF

/-- The first and last of each stretch of characters that a name may start with. -/
def nameStarts : List (Nat × Nat) :=
  [(0x3A, 0x3A), (0x41, 0x5A), (0x5F, 0x5F), (0x61, 0x7A), (0xC0, 0xD6), (0xD8, 0xF6),
   (0xF8, 0x2FF), (0x370, 0x37D), (0x37F, 0x1FFF), (0x200C, 0x200D), (0x2070, 0x218F),
   (0x2C00, 0x2FEF), (0x3001, 0xD7FF), (0xF900, 0xFDCF), (0xFDF0, 0xFFFD), (0x10000, 0xEFFFF)]

/-- The first and last of each stretch of characters that a name may only go on with. -/
def nameMarks : List (Nat × Nat) :=
  [(0x2D, 0x2E), (0x30, 0x39), (0xB7, 0xB7), (0x300, 0x36F), (0x203F, 0x2040)]

/-- Whether a character lies in one of the stretches. -/
def liesIn (stretches : List (Nat × Nat)) (c : Char) : Bool :=
  stretches.any fun s => s.1 ≤ c.toNat && c.toNat ≤ s.2

/-- A character that a name may start with; a colon is one of them. -/
def startsName (c : Char) : Bool := liesIn nameStarts c

/-- A character that a name may go on with. -/
def continuesName (c : Char) : Bool := startsName c || liesIn nameMarks c

end TreeQuery.Markup
