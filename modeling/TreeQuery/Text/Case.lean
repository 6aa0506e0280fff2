import TreeQuery.Text.CaseTable
import TreeQuery.Text.Letter

/-!
# Letter case

The full case mappings of Unicode: a character may map to several (`ß` to `SS`), and a capital
sigma that ends a word becomes the final form of the small letter.
-/

namespace TreeQuery.Text

/-- What a run of the case tables maps `n` to, if the run holds `n`. -/
def CaseRun.map? (r : CaseRun) (n : Nat) : Option Nat :=
  if r.first ≤ n ∧ n ≤ r.last ∧ (n - r.first) % r.step = 0 then some (r.target + (n - r.first))
  else none

/-- Maps a character by the tables of one case; one that is in neither stays. -/
def mapCase (runs : List CaseRun) (expansions : List (Nat × List Nat)) (c : Char) : List Char :=
  match runs.findSome? fun r => r.map? c.toNat with
  | some n => [Char.ofNat n]
  | none =>
    match expansions.find? fun e => e.1 == c.toNat with
    | some (_, ns) => ns.map Char.ofNat
    | none => [c]

/-- The upper case of one character. -/
def upperChar (c : Char) : List Char :=
  if c.toNat < 128 then
    if 0x61 ≤ c.toNat && c.toNat ≤ 0x7A then [Char.ofNat (c.toNat - 0x20)] else [c]
  else mapCase upperRuns upperExpansions c

/-- The lower case of one character, wherever it stands. -/
def lowerChar (c : Char) : List Char :=
  if c.toNat < 128 then
    if 0x41 ≤ c.toNat && c.toNat ≤ 0x5A then [Char.ofNat (c.toNat + 0x20)] else [c]
  else mapCase lowerRuns lowerExpansions c

/-- A letter that has case. -/
def isCased (c : Char) : Bool :=
  if c.toNat < 128 then isAsciiLetter c else inClass casedChanges c

/-- A character that does not interrupt a word when its case is decided. -/
def isCaseIgnorable (c : Char) : Bool :=
  if c.toNat < 128 then
    c.toNat == 0x27 || c.toNat == 0x2E || c.toNat == 0x3A || c.toNat == 0x5E || c.toNat == 0x60
  else inClass caseIgnorableChanges c

/-- Whether a cased letter comes first, after characters that do not interrupt a word. -/
def meetsCased (cs : List Char) : Bool :=
  match cs.dropWhile isCaseIgnorable with
  | [] => false
  | c :: _ => isCased c

/-- The capital sigma. -/
def capitalSigma : Char := Char.ofNat 0x3A3

/-- The lower case of `cs`, where `before` holds the characters in front of it, nearest first. -/
def lowerFrom (before : List Char) : List Char → List Char
  | [] => []
  | c :: cs =>
    (if c = capitalSigma then
      if meetsCased before && !meetsCased cs then [Char.ofNat 0x3C2] else [Char.ofNat 0x3C3]
    else lowerChar c) ++ lowerFrom (c :: before) cs

/-- The upper case of a string. -/
def upper (s : String) : String := String.ofList (s.toList.flatMap upperChar)

/-- The lower case of a string. -/
def lower (s : String) : String := String.ofList (lowerFrom [] s.toList)

end TreeQuery.Text
