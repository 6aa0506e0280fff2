import TreeQuery.Text.Letter
import TreeQuery.Text.Search

/-!
# Names

An unqualified name starts with a letter or `_` and goes on with letters, numerals, `_` and `-`; it
never ends with `-`. A qualified name is an unqualified one, or two of them joined by a colon.
-/

namespace TreeQuery

/-- A character that a name may start with. -/
def isNameStart (c : Char) : Bool := Text.isAlphabetic c || c == '_'

/-- A character that a name may go on with. -/
def isNameChar (c : Char) : Bool := Text.isAlphanumeric c || c == '_' || c == '-'

/-- The characters without the hyphens at their end. -/
def dropHyphens (cs : List Char) : List Char := (cs.reverse.dropWhile (· == '-')).reverse

/-- The longest unqualified name at the start of a text, and what follows it. -/
def scanName : List Char → Option (List Char × List Char)
  | [] => none
  | c :: cs =>
    if isNameStart c then
      let name := dropHyphens (c :: cs.takeWhile isNameChar)
      some (name, (c :: cs).drop name.length)
    else none

/-- Whether a text is exactly one unqualified name. -/
def isSimpleName (cs : List Char) : Bool :=
  match scanName cs with
  | some (_, []) => true
  | _ => false

/-- A name with an optional qualifier in front of it. -/
structure QName where
  /-- What stands before the colon. -/
  qualifier : Option String
  /-- The name itself. -/
  localName : String
  deriving DecidableEq

namespace QName

/-- A name without a qualifier. -/
def simple (localName : String) : QName := ⟨none, localName⟩

/-- The qualifier, a colon and the name; the name alone without a qualifier. -/
def render (n : QName) : String :=
  match n.qualifier with
  | none => n.localName
  | some q => q ++ ":" ++ n.localName

/-- Reads one or two unqualified names, joined by the only colon. -/
def parse? (text : String) : Option QName :=
  match Text.splitOnce ':' text.toList with
  | some (q, l) =>
    if isSimpleName q && isSimpleName l then some ⟨some (String.ofList q), String.ofList l⟩
    else none
  | none => if isSimpleName text.toList then some (simple text) else none

/-- Reads the name of a node, which is split at its first colon and not checked. An empty qualifier is
none. -/
def ofTag (text : String) : QName :=
  match Text.splitOnce ':' text.toList with
  | none => simple text
  | some (q, l) => ⟨if q.isEmpty then none else some (String.ofList q), String.ofList l⟩

end QName

end TreeQuery
