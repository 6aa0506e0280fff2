import TreeQuery.Name
import TreeQuery.Text.Blank
import TreeQuery.Token

/-!
# Cutting a text into tokens

Between tokens stand blanks and comments. `splitTrivia` takes them off the start of a text, `lexeme`
finds the token that comes next, and `tokenize` repeats both until nothing is left. A cut never
loses a character: what was cut off and what is left make up the text.
-/

namespace TreeQuery

/-- Takes blanks and comments off the start of a text, inside so many comments. Comments nest, and
one that is never closed goes on to the end. -/
def splitTriviaFrom : Nat → List Char → List Char × List Char
  | depth, '(' :: ':' :: cs => (splitTriviaFrom (depth + 1) cs).map ('(' :: ':' :: ·) id
  | 0, c :: cs =>
    if Text.isBlank c then (splitTriviaFrom 0 cs).map (c :: ·) id else ([], c :: cs)
  | depth + 1, ':' :: ')' :: cs => (splitTriviaFrom depth cs).map (':' :: ')' :: ·) id
  | depth + 1, c :: cs => (splitTriviaFrom (depth + 1) cs).map (c :: ·) id
  | _, [] => ([], [])

/-- Takes blanks and comments off the start of a text. -/
def splitTrivia (cs : List Char) : List Char × List Char := splitTriviaFrom 0 cs

/-- The length of a numeral's whole part and places, and whether it has a point. -/
def scanMantissa (cs : List Char) : Nat × Bool :=
  let whole := (cs.takeWhile Text.isDigit).length
  match cs.drop whole with
  | '.' :: ds => (whole + 1 + (ds.takeWhile Text.isDigit).length, true)
  | _ => (whole, false)

/-- The length of an exponent; zero if the mark is not followed by digits. -/
def scanExponent : List Char → Nat
  | [] => 0
  | c :: cs =>
    if c == 'e' || c == 'E' then
      let sign := match cs with
        | d :: _ => if d == '+' || d == '-' then 1 else 0
        | [] => 0
      let ds := ((cs.drop sign).takeWhile Text.isDigit).length
      if ds = 0 then 0 else 1 + sign + ds
    else 0

/-- The kind and the length of the numeral at the start of a text. -/
def scanNumeral (cs : List Char) : TokenKind × Nat :=
  let (length, pointed) := scanMantissa cs
  let exponent := scanExponent (cs.drop length)
  (if exponent ≠ 0 then .double else if pointed then .decimal else .integer, length + exponent)

/-- The length of a string that started with the quote `q`, its closing quote included. A doubled
quote does not close it. -/
def scanString (q : Char) : List Char → Option Nat
  | [] => none
  | c :: cs =>
    if c = q then
      match cs with
      | d :: ds => if d = q then (scanString q ds).map (· + 2) else some 1
      | [] => some 1
    else (scanString q cs).map (· + 1)

/-- Whether a text starts with an ASCII digit. -/
def startsWithDigit : List Char → Bool
  | [] => false
  | c :: _ => Text.isDigit c

/-- The kind and the length of the token at the start of a text that does not start with blanks or a
comment. A string that is never closed takes all that is left, and a character that starts no token
stands alone. -/
def lexeme : List Char → TokenKind × Nat
  | [] => (.eof, 0)
  | c :: cs =>
    if Text.isDigit c || (c == '.' && startsWithDigit cs) then scanNumeral (c :: cs)
    else if c == '\x22' || c == '\x27' then
      match scanString c cs with
      | some n => (.string, n + 1)
      | none => (.illegal, (c :: cs).length)
    else
      match scanName (c :: cs) with
      | some (name, _) => (.name, name.length)
      | none =>
        match symbols.find? fun s => s.1.isPrefixOf (c :: cs) with
        | some (symbol, kind) => (kind, symbol.length)
        | none => (.illegal, 1)

/-- How many bytes a text takes. -/
def byteLength (cs : List Char) : Nat := cs.foldl (fun n c => n + c.utf8Size) 0

/-- A place in a text: what is left of it, and how many bytes precede that. -/
structure Cursor where
  /-- The text that has not been read. -/
  rest : List Char
  /-- How many bytes have been read. -/
  offset : Nat

namespace Cursor

/-- The start of a text. -/
def start (text : List Char) : Cursor := ⟨text, 0⟩

/-- The next token, and the place behind it. At the end of the text it is `eof`, again and again. -/
def next (c : Cursor) : Token × Cursor :=
  let trivia := splitTrivia c.rest
  let offset := c.offset + byteLength trivia.1
  let found := lexeme trivia.2
  let text := trivia.2.take found.2
  ({ kind := found.1
     text := String.ofList text
     offset
     spaced := !trivia.1.isEmpty || offset == 0 },
   { rest := trivia.2.drop found.2, offset := offset + byteLength text })

/-- The next character that is neither blank nor in a comment. -/
def peek? (c : Cursor) : Option Char := (splitTrivia c.rest).2.head?

end Cursor

/-- What is cut off and what is left make up the text. -/
theorem append_splitTriviaFrom (depth : Nat) (cs : List Char) :
    (splitTriviaFrom depth cs).1 ++ (splitTriviaFrom depth cs).2 = cs := by
  fun_induction splitTriviaFrom depth cs <;> simp_all

/-- Nothing that is left is longer than the text. -/
theorem length_splitTrivia_le (cs : List Char) : (splitTrivia cs).2.length ≤ cs.length := by
  have h := congrArg List.length (append_splitTriviaFrom 0 cs)
  rw [List.length_append] at h
  exact Nat.le.intro ((Nat.add_comm ..).trans h)

private theorem scanMantissa_pos {c : Char} {cs : List Char}
    (h : (Text.isDigit c || (c == '.' && startsWithDigit cs)) = true) :
    0 < (scanMantissa (c :: cs)).1 := by
  by_cases hd : Text.isDigit c = true
  · simp only [scanMantissa, List.takeWhile_cons, hd, if_true, List.length_cons]
    split <;> simp only [] <;> omega
  · have hc : c = '.' := by simp_all
    subst hc
    simp only [scanMantissa, List.takeWhile_cons, hd, Bool.false_eq_true, if_false,
      List.length_nil, List.drop_zero]
    omega

private theorem scanName_length_pos {cs name rest : List Char} (h : scanName cs = some (name, rest)) :
    0 < name.length := by
  cases cs with
  | nil => simp [scanName] at h
  | cons c cs =>
    simp only [scanName] at h
    split at h
    · next hs =>
      obtain ⟨rfl, -⟩ : dropHyphens (c :: cs.takeWhile isNameChar) = name ∧ _ := by simpa using h
      have hc : (c == '-') = false := by
        cases hb : c == '-' with
        | false => rfl
        | true =>
          rw [beq_iff_eq] at hb
          subst hb
          exact absurd hs (by decide)
      simp only [dropHyphens, List.reverse_cons, List.length_reverse]
      rw [List.dropWhile_append]
      split <;> simp [hc]
    · simp at h

/-- A token takes at least one character, unless there is none. -/
theorem lexeme_pos (c : Char) (cs : List Char) : 0 < (lexeme (c :: cs)).2 := by
  simp only [lexeme]
  split
  · next hd => exact Nat.lt_of_lt_of_le (scanMantissa_pos hd) (Nat.le_add_right ..)
  · split
    · split <;> simp
    · split
      · next hn => exact scanName_length_pos hn
      · split
        · next hf =>
          have hm := List.mem_of_find?_eq_some hf
          have hall : ∀ s ∈ symbols, 0 < s.1.length := by decide
          exact hall _ hm
        · simp

/-- Behind a token there is less left than in front of it. -/
theorem Cursor.next_rest_lt (c : Cursor) (h : c.next.1.kind ≠ .eof) :
    c.next.2.rest.length < c.rest.length := by
  have hle := length_splitTrivia_le c.rest
  simp only [Cursor.next] at h ⊢
  cases hs : (splitTrivia c.rest).2 with
  | nil => rw [hs] at h; exact absurd rfl h
  | cons d ds =>
    rw [hs] at hle
    have hp := lexeme_pos d ds
    simp only [List.length_drop]
    simp only [List.length_cons] at hle ⊢
    omega

/-- The tokens from a place on, without the `eof` at their end. -/
def Cursor.tokens (c : Cursor) : List Token :=
  if _h : c.next.1.kind = .eof then [] else c.next.1 :: c.next.2.tokens
termination_by c.rest.length
decreasing_by exact c.next_rest_lt _h

/-- The tokens of a text, without the `eof` at their end. -/
def tokenize (text : List Char) : List Token := (Cursor.start text).tokens

end TreeQuery
