import TreeQuery.Proofs.Expr.Text
import TreeQuery.Proofs.Parser.Persists
import TreeQuery.Proofs.Parser.Types

/-!
# Reading operands

`Opens e` says how the text of `e` is read as an operand: the operand is `e.reread`, and what follows
it is climbed on, provided that the levels of nesting suffice. Whatever ends the operand is told apart
by `Stops`; whatever an operand begins with is no closing bracket, which is `Begins`.
-/

namespace TreeQuery

open TreeQuery.Parser

/-! ### Where operands begin and end -/

/-- A text that begins like an operand: it opens no comment behind a parenthesis, closes no bracket,
and is no placeholder. -/
structure Begins (cs : List Char) : Prop where
  head : cs.head? ≠ some ':'
  kind : nextKind cs ∉ [.rightParen, .rightBracket, .rightBrace, .comma, .eof]
  placeholder : nextKind cs = .question →
    nextKind (afterToken cs) ≠ .comma ∧ nextKind (afterToken cs) ≠ .rightParen

/-- What begins an operand is no closing bracket, no comma and not the end. -/
theorem Begins.ne {cs : List Char} (h : Begins cs) {kind : TokenKind}
    (hkind : kind ∈ [.rightParen, .rightBracket, .rightBrace, .comma, .eof]) : nextKind cs ≠ kind :=
  fun heq => h.kind (heq ▸ hkind)

/-- A text whose first token is neither a bracket that closes nor a question mark. -/
theorem begins_of_starts {cs rest : List Char} {kind : TokenKind} {text : String}
    (h : Starts cs kind text rest) (hhead : cs.head? ≠ some ':')
    (hkind : kind ∉ [.rightParen, .rightBracket, .rightBrace, .comma, .eof, .question]) :
    Begins cs := by
  refine ⟨hhead, fun hmem => hkind ?_, fun hquestion => absurd ?_ hkind⟩
  · rw [h.kind] at hmem
    exact List.mem_append_left [.question] hmem
  · rw [← h.kind, hquestion]
    decide

/-- A single slash is a token if no other slash follows. -/
theorem starts_slash {cs : List Char} (h : cs.head? ≠ some '/') : Starts ('/' :: cs) .slash "/" cs := by
  refine @starts_of_lexeme '/' [] _ _ (by decide) (Or.inl (by decide)) ?_
  cases cs with
  | nil => rfl
  | cons c cs =>
    have hslash : '/' ≠ c := fun heq => h (by rw [heq]; rfl)
    have hscan : scanName ('/' :: c :: cs) = none := rfl
    simp [lexeme, hscan, Text.isDigit, symbols, hslash]

/-- A text that starts with a slash starts with a token of slashes. -/
theorem head_ne_slash {cs : List Char} (h : nextKind cs ≠ .slash ∧ nextKind cs ≠ .doubleSlash) :
    cs.head? ≠ some '/' := by
  intro hhead
  obtain ⟨ds, rfl⟩ : ∃ ds, cs = '/' :: ds := by
    cases cs with
    | nil => contradiction
    | cons c ds => exact ⟨ds, by rw [Option.some.inj hhead]⟩
  by_cases hds : ds.head? = some '/'
  · obtain ⟨es, rfl⟩ : ∃ es, ds = '/' :: es := by
      cases ds with
      | nil => contradiction
      | cons d es => exact ⟨es, by rw [Option.some.inj hds]⟩
    exact h.2 rfl
  · exact h.1 (starts_slash hds).kind

/-- The next token binds no tighter than `least`, if it is an operator at all. -/
def Stops (least : Precedence) (rest : List Char) : Prop :=
  ∀ t : Token, t.kind = nextKind rest → t.text = nextText rest →
    ∀ precedence, t.infixPrecedence? = some precedence → precedence.rank ≤ least.rank

/-- Brackets that close, commas, colons and the end stop everything. -/
theorem stops_of_kind {least : Precedence} {rest : List Char}
    (h : nextKind rest ∈ [.rightParen, .rightBracket, .rightBrace, .comma, .colon, .eof]) :
    Stops least rest := by
  intro t hkind _ precedence hprecedence
  rw [← hkind] at h
  simp only [List.mem_cons, List.not_mem_nil, or_false] at h
  simp only [Token.infixPrecedence?] at hprecedence
  rcases h with h | h | h | h | h | h <;> rw [h] at hprecedence <;> contradiction

/-- Brackets that close, commas, colons and the end may follow a lone `/`. -/
theorem admitsRoot_of_kind {rest : List Char}
    (h : nextKind rest ∈ [.rightParen, .rightBracket, .rightBrace, .comma, .colon, .eof]) :
    startsPath (nextKind rest) = false ∧ rest.head? ≠ some '/' := by
  have hall : ∀ k ∈ [TokenKind.rightParen, .rightBracket, .rightBrace, .comma, .colon, .eof],
      startsPath k = false ∧ k ≠ .slash ∧ k ≠ .doubleSlash := by
    decide
  exact ⟨(hall _ h).1, head_ne_slash (hall _ h).2⟩

/-- So does a word that is no operator. -/
theorem stops_of_word {least : Precedence} {cs rest : List Char} {word : String}
    (h : Starts cs .name word rest) (hword : infixWords.lookup word = none) : Stops least cs := by
  intro t hkind htext precedence hprecedence
  rw [h.kind] at hkind
  rw [h.text] at htext
  simp only [Token.infixPrecedence?, hkind, htext, hword] at hprecedence
  contradiction

namespace Expr

/-- Where the text of an expression may stand as an operand behind `least` and in front of `rest`. -/
structure Admits (e : Expr) (least : Precedence) (rest : List Char) : Prop where
  ends : NameEnds rest
  chain : least.rank < Precedence.chain.rank
  path : e.IsPath → least.rank < Precedence.path.rank ∧ Stops .path rest
  root : e = .root → startsPath (nextKind rest) = false ∧ rest.head? ≠ some '/'

/-- The text of an expression is read as an operand, on which what follows goes on to climb. -/
def Opens (e : Expr) : Prop :=
  ∀ (levels : Nat) (least : Precedence) (rest : List Char), e.Admits least rest →
    ∀ (fits : Prop) (e' : Expr) (after : List Char),
      Reads fits (climb (operandAt levels) levels least e.reread) rest e' after →
        Reads (e.levels ≤ levels + 1 ∧ fits) (operandAt (levels + 1) least) (e.text ++ rest) e' after

end Expr

end TreeQuery

namespace TreeQuery.Parser

variable {fits fits' : Prop} {levels : Nat} {least : Precedence} {e e' left : Expr}
  {cs ds rest after : List Char} {kind : TokenKind} {text : String}

/-! ### Climbing -/

/-- Where climbing stops, what has been read is the operand. -/
theorem reads_climb_stop {operand : OperandParser} (h : Stops least rest) :
    Reads True (climb operand levels least e) rest e rest := by
  refine reads_of_fits fun s hs => ?_
  have hstop : ∀ t ts precedence, s.tokens = t :: ts → t.infixPrecedence? = some precedence →
      precedence.rank ≤ least.rank := by
    intro t ts precedence htokens
    have hhead := hs.head
    rw [htokens] at hhead
    exact h t hhead.1 hhead.2 precedence
  obtain ⟨hvalue, hstate⟩ : (climb operand levels least e s).value = e ∧
      (climb operand levels least e s).state = s := climb_of_le levels hstop
  rw [hvalue, hstate]
  exact ⟨rfl, hs⟩

/-- One operator more. -/
theorem reads_climb {operand : OperandParser} {precedence : Precedence}
    (hoperand : operand.Persists) (hstarts : Starts cs kind text rest)
    (hprecedence : ∀ t : Token, t.kind = kind → t.text = text → t.infixPrecedence? = some precedence)
    (hlt : least.rank < precedence.rank)
    (hrest : ∀ t : Token, t.kind = kind → t.text = text →
      Reads fits (operatorRest operand levels t left precedence) rest e after)
    (hclimb : Reads fits' (climb operand levels least e) after e' ds) :
    Reads (fits ∧ fits') (climb operand levels least left) cs e' ds := by
  have heof : nextKind cs ≠ .eof := by
    intro heof
    have hnone := hprecedence ⟨kind, text, 0, false⟩ rfl rfl
    rw [← hstarts.kind, heof] at hnone
    contradiction
  intro s hs
  obtain ⟨t, ts, htokens, hkind, htext⟩ := hs.exists_cons heof
  have htail := hs.tail
  rw [hstarts.kind] at hkind
  rw [hstarts.text] at htext
  rw [htokens, hstarts.rest] at htail
  obtain ⟨hvalue, hstate⟩ :=
    @climb_of_lt operand levels _ _ left _ _ _ htokens (hprecedence t hkind htext) hlt
  rw [hvalue, hstate]
  exact ((hrest t hkind htext).bind (fun left => persists_climb hoperand levels least left) hclimb)
    _ htail

/-- An operator between two operands, the left one of which has been read. -/
theorem reads_climb_binary {operand : OperandParser} {op : BinaryOp} {precedence : Precedence}
    {right : Expr} (hoperand : operand.Persists) (hstarts : Starts cs kind text rest)
    (htoken : ∀ t : Token, t.kind = kind → t.text = text →
      binaryOperator? t = some op ∧ t.infixPrecedence? = some precedence)
    (hlt : least.rank < precedence.rank) (hright : Reads fits (operand precedence) rest right after)
    (hclimb : Reads fits' (climb operand levels least (.binary op left right)) after e' ds) :
    Reads (fits ∧ fits') (climb operand levels least left) cs e' ds := by
  refine reads_climb hoperand hstarts (fun t hkind htext => (htoken t hkind htext).2) hlt
    (fun t hkind htext => ?_) hclimb
  rw [operatorRest, (htoken t hkind htext).1]
  exact hright.andThen (fun _ => persists_pure _) reads_pure

/-- A slash between two sides of a path, the left one of which has been read. -/
theorem reads_climb_slash {operand : OperandParser} {right : Expr} (hoperand : operand.Persists)
    (hhead : cs.head? ≠ some '/') (hlt : least.rank < Precedence.path.rank)
    (hright : Reads fits (operand .path) cs right after)
    (hclimb : Reads fits' (climb operand levels least (.path left right)) after e' ds) :
    Reads (fits ∧ fits') (climb operand levels least left) ('/' :: cs) e' ds := by
  refine reads_climb hoperand (starts_slash hhead)
    (fun t hkind _ => by simp [Token.infixPrecedence?, hkind]) hlt (fun t hkind _ => ?_) hclimb
  have hnone : binaryOperator? t = none := by simp [binaryOperator?, symbolOperator?, hkind]
  rw [operatorRest, hnone, hkind]
  exact hright.andThen (fun _ => persists_pure _) reads_pure

/-! ### Operands -/

/-- Below all levels no operand is read. -/
theorem reads_operandAt_zero (h : ¬ fits) : Reads fits (operandAt 0 least) cs e rest :=
  fun s _ => ⟨fun hfits => absurd hfits h, fun _ => errors_error_ne_nil _ s⟩

/-- An operand is what comes first, climbed on. -/
theorem reads_operandAt (hprimary : Reads fits (primary (operandAt levels) levels) cs e rest)
    (hclimb : Reads fits' (climb (operandAt levels) levels least e) rest e' after) :
    Reads (fits ∧ fits') (operandAt (levels + 1) least) cs e' after :=
  (hprimary.bind (fun left => persists_climb (persists_operandAt levels) levels least left)
    hclimb).nested

end TreeQuery.Parser
