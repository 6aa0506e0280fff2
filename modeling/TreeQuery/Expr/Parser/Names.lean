import TreeQuery.Expr.Parser.Basic
import TreeQuery.SequenceType
import TreeQuery.Text.Quoted

/-!
# Reading names, node tests and types

A qualified name or a name test is spread over several tokens without space between them. It goes on
for as long as the joined text can still become a name, and a colon at its end is left alone.
-/

namespace TreeQuery.Parser

/-- Whether a text is a name or a name test, or the beginning of one that goes on behind a colon. -/
def isNameStem (text : List Char) : Bool :=
  match Text.splitOnce ':' text with
  | none => text == ['*'] || isSimpleName text
  | some (['*'], l) => l.isEmpty || isSimpleName l
  | some (q, l) => isSimpleName q && (l.isEmpty || l == ['*'] || isSimpleName l)

/-- Joins tokens to `joined` while the text is the stem of a name. `best` is the longest text so far
that does not end with a colon, with the tokens behind it. -/
def joinName (best : List Char × List Token) (joined : List Char) :
    List Token → List Char × List Token
  | [] => best
  | t :: ts =>
    let longer := joined ++ t.text.toList
    if t.spaced || !isNameStem longer then best
    else joinName (if longer.getLast? = some ':' then best else (longer, ts)) longer ts

/-- The longest name that starts with the first token, and the tokens behind it. -/
def splitName : List Token → List Char × List Token
  | [] => ([], [])
  | t :: ts => joinName (t.text.toList, ts) t.text.toList ts

/-- Behind a name is what is left of the tokens, wherever it ends. -/
theorem joinName_suffix {tokens : List Token} (best : List Char × List Token) (joined : List Char)
    (ts : List Token) (h : best.2 <:+ tokens) (hts : ts <:+ tokens) :
    (joinName best joined ts).2 <:+ tokens := by
  induction ts generalizing best joined with
  | nil => exact h
  | cons t ts ih =>
    have hts' : ts <:+ tokens := (List.suffix_cons t ts).trans hts
    simp only [joinName]
    split
    · exact h
    · split
      · exact ih _ _ h hts'
      · exact ih _ _ hts' hts'

/-- A name takes tokens off the front. -/
theorem splitName_suffix (ts : List Token) : (splitName ts).2 <:+ ts := by
  cases ts with
  | nil => exact List.suffix_refl _
  | cons t ts => exact joinName_suffix _ _ _ (List.suffix_cons t ts) (List.suffix_cons t ts)

/-- Takes the next token and those that it makes a name with, and gives their text. -/
def takeName : Parser String := fun s =>
  let found := splitName s.tokens
  ⟨String.ofList found.1, { s with tokens := found.2 }, (splitName_suffix s.tokens).length_le⟩

/-- The qualified name of a text that starts at a token. -/
def nameOf (start : Token) (text : String) : Parser QName := do
  match QName.parse? text with
  | some name => return name
  | none =>
    failed (errorAt start "qualified name")
    return .simple text

/-- Reads a qualified name. -/
def qualifiedName (expected : String) : Parser QName := do
  if ← isAt .name then
    let start ← current
    nameOf start (← takeName)
  else
    failed (error expected)
    return .simple ""

/-- The name test of a text that starts at a token. -/
def nameTestOf (start : Token) (text : String) : Parser NodeTest := do
  let cs := text.toList
  if cs = ['*'] then return .anyName
  else if ['*', ':'].isPrefixOf cs then return .anyQualifier (String.ofList (cs.drop 2))
  else if [':', '*'].isSuffixOf cs then
    return .anyLocal (String.ofList (cs.take (cs.length - 2)))
  else return .named (← nameOf start text)

/-- Whether the next tokens are a keyword of kind tests and a parenthesis. -/
def isAtKindTest : Parser Bool := do
  let token ← current
  return token.kind == .name && (← following) == .leftParen &&
    (KindTest.ofKeyword? token.text).isSome

/-- Reads the name of an element or attribute test, with a type that does not count. -/
def kindTestName : Parser (Option QName) := do
  let name ←
    if ← eat .star then pure none
    else if ← isAt .name then some <$> qualifiedName "element or attribute name"
    else pure none
  if ← eat .comma then
    let _ ← qualifiedName "type name"
    let _ ← eat .question
  return name

/-- Reads the target of a test for processing instructions. -/
def kindTestTarget : Parser (Option String) := do
  if ← isAt .name then return some (← advance).text
  else if ← isAt .string then
    return some (String.ofList (Text.unquote (← advance).text.toList))
  else return none

/-- Reads a kind test, with so many levels of nesting left. -/
def kindTest (levels : Nat) : Parser KindTest := do
  let keyword := (← advance).text
  let _ ← advance
  let test ←
    if keyword = "element" then KindTest.element <$> kindTestName
    else if keyword = "attribute" then KindTest.attribute <$> kindTestName
    else if keyword = "processing-instruction" then
      KindTest.processingInstruction <$> kindTestTarget
    else if keyword = "document-node" then do
      if (← isAt .name) && (← following) == .leftParen then
        match levels with
        | 0 => failed (error "shallower nesting")
        | levels + 1 => let _ ← nested (kindTest levels)
      pure KindTest.document
    else pure ((KindTest.ofKeyword? keyword).getD .anyNode)
  let _ ← expect .rightParen "')'"
  return test

/-- Reads a node test, with so many levels of nesting left. -/
def nodeTest (levels : Nat) : Parser NodeTest := do
  if ← isAtKindTest then return .kind (← kindTest levels)
  else if (← isAt .name) || (← isAt .star) then
    let start ← current
    nameTestOf start (← takeName)
  else
    failed (error "node test")
    return .kind .anyNode

/-- What is left behind the parenthesis that closes the first group, and whether there is one. -/
def skipGroup : Nat → List Token → List Token × Bool
  | _, [] => ([], false)
  | depth, t :: ts =>
    match t.kind with
    | .leftParen => skipGroup (depth + 1) ts
    | .rightParen => if depth ≤ 1 then (ts, true) else skipGroup (depth - 1) ts
    | _ => skipGroup depth ts

/-- A group that is skipped takes tokens off the front. -/
theorem skipGroup_suffix (depth : Nat) (ts : List Token) : (skipGroup depth ts).1 <:+ ts := by
  induction ts generalizing depth with
  | nil => exact List.suffix_refl _
  | cons t ts ih =>
    have hbehind := List.suffix_cons t ts
    simp only [skipGroup]
    split
    · exact (ih _).trans hbehind
    · split
      · exact hbehind
      · exact (ih _).trans hbehind
    · exact (ih _).trans hbehind

/-- Skips the parameters of a type, which do not count. -/
def skipParameters : Parser Unit := fun s =>
  let found := skipGroup 0 s.tokens
  let skipped : Parsed s Unit :=
    ⟨(), { s with tokens := found.1 }, (skipGroup_suffix 0 s.tokens).length_le⟩
  if found.2 then skipped
  else
    let r := failed (errorAt (endToken s) "')'") skipped.state
    ⟨(), r.state, Nat.le_trans r.length_le skipped.length_le⟩

/-- The item types that are spelled with parameters in parentheses. -/
def parameterizedTypes : List (String × ItemType) :=
  [("item", .item), ("map", .map), ("array", .array), ("function", .function)]

/-- Reads the type of a sequence, given how to read the type of an item. -/
def sequenceTypeOf (itemType : Parser ItemType) : Parser SequenceType := do
  if (← isAtWord "empty-sequence") && (← following) == .leftParen then
    let _ ← advance
    let _ ← advance
    let _ ← expect .rightParen "')'"
    return .empty
  else
    let type ← itemType
    if ← eat .question then return .items type .optional
    else if ← eat .star then return .items type .many
    else if ← eat .plus then return .items type .oneOrMore
    else return .items type .one

/-- Reads the name of an atomic type. -/
def atomicType : Parser AtomicType := do
  let token ← current
  let name ← qualifiedName "type name"
  match AtomicType.ofName? name with
  | some type => return type
  | none =>
    failed (errorAt token "atomic type")
    return .anyAtomic

/-- Reads the type of an item, with so many levels of nesting left. -/
def itemType (levels : Nat) : Parser ItemType := do
  if ← eat .leftParen then
    let inner ←
      match levels with
      | 0 => do
        failed (error "shallower nesting")
        pure ItemType.item
      | levels + 1 => nested (itemType levels)
    let _ ← expect .rightParen "')'"
    return inner
  let token ← current
  if token.kind != .name then
    failed (error "item type")
    return .item
  if ← isAtKindTest then return .node (← kindTest levels)
  match parameterizedTypes.lookup token.text, ← following with
  | some type, .leftParen =>
    let _ ← advance
    skipParameters
    if type = .function then
      if ← isAtWord "as" then
        let _ ← advance
        match levels with
        | 0 => failed (error "shallower nesting")
        | levels + 1 => let _ ← nested (sequenceTypeOf (itemType levels))
    return type
  | _, _ => return .atomic (← atomicType)

/-- Reads the type of a sequence, with so many levels of nesting left. -/
def sequenceType (levels : Nat) : Parser SequenceType := sequenceTypeOf (itemType levels)

/-- Reads the type of a cast. -/
def singleType : Parser SingleType := do
  let type ← atomicType
  return { type, optional := ← eat .question }

end TreeQuery.Parser
