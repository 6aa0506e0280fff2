import TreeQuery.Markup.Character
import TreeQuery.Name

/-!
# Parts of a markup text

Each scanner takes one part off the start of a text and gives it together with what is left; it gives
nothing when the text does not start with such a part.
-/

namespace TreeQuery.Markup

/-- The text behind the spaces at its start. -/
def skipSpaces (cs : List Char) : List Char := cs.dropWhile isSpace

/-- The characters in front of a mark, which have to be allowed, and the text behind the mark. -/
def scanUpTo? (mark : String) (cs : List Char) : Option (List Char × List Char) := do
  let (before, after) ← Text.cut mark.toList cs
  guard (before.all isAllowed)
  return (before, after)

/-- The longest stretch of characters of a kind, which have to be allowed. -/
def scanWhile? (kind : Char → Bool) (cs : List Char) : Option (List Char × List Char) := do
  let (before, after) := cs.span kind
  guard (before.all isAllowed)
  return (before, after)

/-- Whether a text starts as names do. -/
def beginsName (cs : List Char) : Bool := cs.head?.any startsName

/-- A name whose colons mean nothing. -/
def scanPlainName? (cs : List Char) : Option (String × List Char) :=
  if beginsName cs then
    let (name, rest) := cs.span continuesName
    some (String.ofList name, rest)
  else none

/-- The name that a stretch of name characters stands for. It has at most one colon, and nothing in
front of the colon is no qualifier. -/
def qualifiedName? (written : List Char) : Option QName :=
  match Text.splitOnce ':' written with
  | none => if beginsName written then some (.simple (String.ofList written)) else none
  | some (q, l) =>
    if l.contains ':' || !beginsName l then none
    else if q.isEmpty then some (.simple (String.ofList l))
    else if beginsName q then some ⟨some (String.ofList q), String.ofList l⟩
    else none

/-- The name of an element or an attribute. -/
def scanQName? (cs : List Char) : Option (QName × List Char) := do
  let (written, rest) := cs.span continuesName
  return (← qualifiedName? written, rest)

/-- An attribute: its name, and what is written between its quotes. -/
def scanAttribute? (cs : List Char) : Option ((QName × List Char) × List Char) := do
  let (name, rest) ← scanQName? cs
  let rest ← Text.behind? "=" (skipSpaces rest)
  match skipSpaces rest with
  | [] => none
  | q :: rest =>
    guard (q == '\x22' || q == '\x27')
    let (value, rest) ← scanWhile? (fun c => c != q && c != '<') rest
    return ((name, value), ← Text.behind? (String.ofList [q]) rest)

/-- Spaces, which are needed unless the declaration ends here. -/
def scanGap? (cs : List Char) : Option (List Char) :=
  if cs.head?.any isSpace then some (skipSpaces cs)
  else if cs.isEmpty || "?>".toList.isPrefixOf cs then some cs
  else none

/-- An attribute of the declaration if the text goes on with its name, and the gap behind it. -/
def scanSetting? (name : String) (cs : List Char) : Option (List Char) :=
  if name.toList.isPrefixOf cs then do
    let (_, rest) ← scanAttribute? cs
    scanGap? rest
  else some cs

/-- The text behind the declaration, which tells the version and may tell the encoding and whether
the document stands alone. -/
def scanDeclaration? (cs : List Char) : Option (List Char) := do
  let rest ← Text.behind? "<?xml" cs
  let rest ← scanGap? rest
  guard ("version".toList.isPrefixOf rest)
  let rest ← scanSetting? "version" rest
  let rest ← scanSetting? "encoding" rest
  let rest ← match "standalone".toList.isPrefixOf rest with
    | true => (scanAttribute? rest).map Prod.snd
    | false => some rest
  Text.behind? "?>" (skipSpaces rest)

end TreeQuery.Markup
