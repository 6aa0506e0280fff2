import TreeQuery.Markup.Text

/-!
# Events

A markup text is read into events: elements that start and end, and what stands in them and around
the outermost one. Reading settles where each part ends and what its text is. Whether names are
declared, and whether an end fits its start, is not settled here.
-/

namespace TreeQuery.Markup

/-- What is met when a markup text is read from its start to its end. -/
inductive Event
  /-- An element starts. -/
  | start (name : QName) (attributes : List (QName × String))
  /-- An element ends. -/
  | stop (name : QName)
  /-- A text in an element. -/
  | text (value : String)
  /-- A comment. -/
  | comment (value : String)
  /-- A processing instruction. -/
  | instruction (target value : String)
  deriving DecidableEq

namespace Event

/-- Whether text has two hyphens in a row, or one at its end. -/
def hasLooseHyphens (cs : List Char) : Bool :=
  Text.occurs "--".toList cs || cs.getLast? == some '-'

/-- A comment, from behind its opening mark. -/
def scanComment? (cs : List Char) : Option (List Event × List Char) := do
  let (value, rest) ← scanUpTo? "-->" cs
  guard (!hasLooseHyphens value)
  return ([comment (String.ofList value)], rest)

/-- A processing instruction, from behind its opening mark. Spaces behind the target belong to
neither part. -/
def scanInstruction? (cs : List Char) : Option (List Event × List Char) := do
  guard (!"xml ".toList.isPrefixOf cs)
  let (target, rest) ← scanPlainName? cs
  let (value, rest) ← scanUpTo? "?>" (skipSpaces rest)
  return ([instruction target (String.ofList value)], rest)

/-- A verbatim section, from behind its opening mark. -/
def scanVerbatim? (cs : List Char) : Option (List Event × List Char) := do
  let (value, rest) ← scanUpTo? "]]>" cs
  return ([text (verbatim value)], rest)

/-- The text up to the next tag. -/
def scanText? (cs : List Char) : Option (List Event × List Char) := do
  let (value, rest) ← scanWhile? (· != '<') cs
  return ([text (← characterData? value)], rest)

/-- An end tag, from behind its opening mark. -/
def scanStop? (cs : List Char) : Option (List Event × List Char) := do
  let (name, rest) ← scanQName? cs
  return ([stop name], ← Text.behind? ">" (skipSpaces rest))

/-- The attributes of a start tag behind those that are known, in reverse order, and the end of the
tag: whether the element is empty. A space stands in front of each attribute. At most so many
attributes are read. -/
def scanAttributes? : Nat → List (QName × String) → List Char →
    Option (List (QName × String) × Bool × List Char)
  | 0, _, _ => none
  | steps + 1, done, cs =>
    match skipSpaces cs with
    | '/' :: '>' :: rest => some (done.reverse, true, rest)
    | '>' :: rest => some (done.reverse, false, rest)
    | rest =>
      if cs.head?.any isSpace then do
        let ((name, written), rest) ← scanAttribute? rest
        let value ← attributeValue? written
        scanAttributes? steps ((name, value) :: done) rest
      else none

/-- A start tag, from behind its opening mark. An empty element ends at once. -/
def scanStart? (cs : List Char) : Option (List Event × List Char) := do
  let (name, rest) ← scanQName? cs
  let (attributes, closed, rest) ← scanAttributes? (rest.length + 1) [] rest
  return (if closed then [start name attributes, stop name] else [start name attributes], rest)

/-- What stands next in an element. -/
def scanContent? (cs : List Char) : Option (List Event × List Char) :=
  match cs with
  | '<' :: '!' :: '-' :: '-' :: rest => scanComment? rest
  | '<' :: '!' :: '[' :: 'C' :: 'D' :: 'A' :: 'T' :: 'A' :: '[' :: rest => scanVerbatim? rest
  | '<' :: '?' :: rest => scanInstruction? rest
  | '<' :: '/' :: rest => scanStop? rest
  | '<' :: rest => scanStart? rest
  | _ => scanText? cs

/-- How many elements are open behind events. -/
def depthAfter (depth : Nat) (events : List Event) : Nat :=
  events.foldl (fun depth e => match e with
    | start .. => depth + 1
    | stop _ => depth - 1
    | _ => depth) depth

/-- Reads until every element is closed. The events so far come in reverse order, and at most so many
steps are taken. -/
def contentFrom : Nat → Nat → List Event → List Char → Option (List Event × List Char)
  | _, 0, done, cs => some (done, cs)
  | 0, _ + 1, _, _ => none
  | steps + 1, depth + 1, done, cs => do
    let (events, rest) ← scanContent? cs
    contentFrom steps (depthAfter (depth + 1) events) (events.reverse ++ done) rest

/-- The outermost element. -/
def scanElement? (done : List Event) (cs : List Char) : Option (List Event × List Char) := do
  let rest ← Text.behind? "<" cs
  let (events, rest) ← scanStart? rest
  contentFrom rest.length (depthAfter 0 events) (events.reverse ++ done) rest

/-- Comments and instructions outside the outermost element, and the text behind them and the spaces
around them. -/
def surroundingsFrom : Nat → List Event → List Char → Option (List Event × List Char)
  | 0, done, cs => some (done, cs)
  | steps + 1, done, cs =>
    match skipSpaces cs with
    | '<' :: '!' :: '-' :: '-' :: rest => do
      let (events, rest) ← scanComment? rest
      surroundingsFrom steps (events ++ done) rest
    | '<' :: '?' :: rest => do
      let (events, rest) ← scanInstruction? rest
      surroundingsFrom steps (events ++ done) rest
    | rest => some (done, rest)

/-- Joins texts that follow each other. -/
def joinTexts (events : List Event) : List Event :=
  events.foldr (fun e joined => match e, joined with
    | text a, text b :: rest => text (a ++ b) :: rest
    | _, _ => e :: joined) []

/-- The text without a byte order mark, and behind the declaration if there is one. -/
def scanOpening? (cs : List Char) : Option (List Char) :=
  let cs := (Text.behind? "\uFEFF" cs).getD cs
  if "<?xml ".toList.isPrefixOf cs then scanDeclaration? cs else some cs

/-- The events of a text that is well formed: one element, and around it only spaces, comments and
instructions. -/
def ofText? (cs : List Char) : Option (List Event) := do
  let rest ← scanOpening? cs
  let (done, rest) ← surroundingsFrom (rest.length + 1) [] rest
  let (done, rest) ← scanElement? done rest
  let (done, rest) ← surroundingsFrom (rest.length + 1) done rest
  guard rest.isEmpty
  return joinTexts done.reverse

end Event

end TreeQuery.Markup
