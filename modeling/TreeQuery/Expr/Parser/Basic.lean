import TreeQuery.Error
import TreeQuery.Token.Scan

/-!
# Parsers over tokens

A parser takes tokens off the front of a list and notes what it misses. It never fails, and it never
gives a token back: this is part of its type, so that whatever is repeated behind a token ends.
-/

namespace TreeQuery

/-- Counts of a run of a parser. They change nothing in what is read. -/
structure Counters where
  /-- How deep the parser is in nested operands, tests and types. -/
  depth : Nat := 0
  /-- How deep it has been at most. -/
  deepest : Nat := 0
  /-- How often it went one level deeper. -/
  entered : Nat := 0
  /-- How many checks failed, whether an error was noted for each or not. -/
  missed : Nat := 0

namespace Counters

/-- Counts one level more. -/
def enter (c : Counters) : Counters :=
  { c with
    depth := c.depth + 1
    deepest := max c.deepest (c.depth + 1)
    entered := c.entered + 1 }

/-- Counts one level less. -/
def leave (c : Counters) : Counters := { c with depth := c.depth - 1 }

/-- Counts a check that failed. -/
def miss (c : Counters) : Counters := { c with missed := c.missed + 1 }

end Counters

/-- What a parser works on. -/
structure ParserState where
  /-- The whole expression. -/
  source : List Char
  /-- The tokens that have not been taken, without `eof`. -/
  tokens : List Token
  /-- What was missed, the latest first. -/
  errors : List SyntaxError
  /-- The counts of the run. -/
  counters : Counters := {}

/-- The result of a parser: a value, and a state with no more tokens than before. -/
structure Parsed (s : ParserState) (α : Type) where
  /-- What was read. -/
  value : α
  /-- What is left. -/
  state : ParserState
  length_le : state.tokens.length ≤ s.tokens.length

/-- A value for which no token is taken. -/
def Parsed.still {α : Type} (s : ParserState) (value : α) : Parsed s α :=
  ⟨value, s, Nat.le_refl _⟩

/-- A reader of tokens. -/
def Parser (α : Type) : Type := (s : ParserState) → Parsed s α

namespace Parser

instance : Monad Parser where
  pure a := fun s => .still s a
  bind p f := fun s =>
    let r := p s
    let q := f r.value r.state
    ⟨q.value, q.state, Nat.le_trans q.length_le r.length_le⟩

/-- The token at the end of the expression. -/
def endToken (s : ParserState) : Token :=
  { kind := .eof, text := "", offset := byteLength s.source, spaced := false }

/-- The next token. -/
def current : Parser Token := fun s => .still s (s.tokens.headD (endToken s))

/-- The kind of the token behind the next one. -/
def following : Parser TokenKind := fun s => .still s (s.tokens.tail.headD (endToken s)).kind

/-- Takes the next token. -/
def advance : Parser Token := fun s =>
  ⟨s.tokens.headD (endToken s), { s with tokens := s.tokens.tail }, by simp⟩

/-- Whether the next token is of this kind. -/
def isAt (kind : TokenKind) : Parser Bool := do
  return (← current).kind == kind

/-- Whether the next token is this word. -/
def isAtWord (word : String) : Parser Bool := do
  return (← current).isWord word

/-- Takes the next token if it is of this kind. -/
def eat (kind : TokenKind) : Parser Bool := do
  if ← isAt kind then
    let _ ← advance
    return true
  else return false

/-- Notes an error. -/
def note (e : SyntaxError) : Parser Unit := fun s =>
  ⟨(), { s with errors := e :: s.errors }, Nat.le_refl _⟩

/-- Changes the counts. -/
def count (f : Counters → Counters) : Parser Unit := fun s =>
  ⟨(), { s with counters := f s.counters }, Nat.le_refl _⟩

/-- Reads one level deeper. -/
def nested {α : Type} (p : Parser α) : Parser α := do
  count .enter
  let a ← p
  count .leave
  return a

/-- What becomes of a check that failed: it is counted here, and then it is up to the report whether an
error is noted. -/
def failed (report : Parser Unit) : Parser Unit := do
  count .miss
  report

/-- Notes what was expected instead of a token. -/
def errorAt (token : Token) (expected : String) : Parser Unit :=
  note { expected, got := token.text, offset := token.offset }

/-- The error that was noted last. -/
def lastError : Parser (Option SyntaxError) := fun s => .still s s.errors.head?

/-- Notes what was expected instead of the next token, unless the last error was there too. -/
def error (expected : String) : Parser Unit := do
  let token ← current
  let last ← lastError
  if last.any fun e => e.offset == token.offset then return ()
  let got := if token.kind == .eof then "end of input" else token.text
  note { expected, got, offset := token.offset }

/-- Takes the next token if it is of this kind, and notes an error if not. -/
def expect (kind : TokenKind) (expected : String) : Parser Bool := do
  if ← eat kind then return true
  failed (error expected)
  return false

/-- Takes the next token if it is this word, and notes an error if not. -/
def expectWord (word : String) : Parser Unit := do
  if ← isAtWord word then
    let _ ← advance
    return ()
  else failed (error ("'" ++ word ++ "'"))

/-- Reads with `p` behind every token of this kind, as long as they follow. -/
def many {α : Type} (kind : TokenKind) (p : Parser α) (s : ParserState) : Parsed s (List α) :=
  match h : s.tokens with
  | [] => .still s []
  | t :: ts =>
    if t.kind = kind then
      let r := p { s with tokens := ts }
      let q := many kind p r.state
      ⟨r.value :: q.value, q.state, by
        have hq := q.length_le
        have hr : r.state.tokens.length ≤ ts.length := r.length_le
        simp only [h, List.length_cons]
        omega⟩
    else .still s []
termination_by s.tokens.length
decreasing_by all_goals exact Nat.lt_of_le_of_lt (p _).length_le (by simp [h])

/-- Reads once and then again behind every comma. -/
def commaList {α : Type} (p : Parser α) : Parser (List α) := do
  let first ← p
  let rest ← many .comma p
  return first :: rest

end Parser

end TreeQuery
