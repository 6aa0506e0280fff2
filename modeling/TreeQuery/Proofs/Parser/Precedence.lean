import TreeQuery.Proofs.Parser.Atoms

/-!
# Reading operators by their precedence

Where no parentheses say otherwise, operators that bind tighter are read first, and those that bind
alike from the left. So an operand needs parentheses only where it holds together too loosely for the
operator next to it; where it has them without need they change nothing. A climbing reader finds the
right end of each operand by the operator that follows, which is what the induction below carries: it
binds no tighter than the operand, or the operand is in parentheses.
-/

namespace TreeQuery

open TreeQuery.Parser

/-- How tightly the text of an expression holds together without parentheses around it: operators do
as they bind, and everything else is one piece. -/
def Expr.precedence : Expr → Precedence
  | .binary op _ _ => op.precedence
  | .signed _ _ => .unary
  | _ => .chain

/-- A text in parentheses, with a space inside each. -/
def parenthesize (cs : List Char) : List Char := '(' :: ' ' :: (cs ++ [' ', ')'])

/-- A text of an expression that is made of operators, signs, integers, strings and variables, with one
space between operands, operators and parentheses. Any operand may be enclosed in one pair of
parentheses. A left operand must be if it holds together more loosely than its operator binds, a
right operand and that of a sign also if it does no tighter. -/
inductive Rendering : (enclosed : Bool) → Expr → List Char → Prop where
  | integer {i : Int64} {ds : List Char} (hne : ds ≠ []) (hdigits : ∀ c ∈ ds, Text.isDigit c = true)
    (hvalue : (Integer.ofDigits ds : Int) = i.toInt) : Rendering false (.literal (.integer i)) ds
  | string (s : String) {q : Char} (hq : q = '\x22' ∨ q = '\x27') :
    Rendering false (.literal (.string s)) (Text.quote q s.toList)
  | var {name : QName} (hname : name.WellFormed) :
    Rendering false (.var name) ('$' :: name.render.toList)
  | signed (sign : Sign) {enclosed : Bool} {e : Expr} {cs : List Char}
    (operand : Rendering enclosed e cs)
    (hoperand : enclosed = true ∨ Precedence.unary.rank < e.precedence.rank) :
    Rendering false (.signed sign e) (sign.symbol.toList ++ ' ' :: cs)
  | binary (op : BinaryOp) {encloseLeft encloseRight : Bool} {l r : Expr} {cs ds : List Char}
    (left : Rendering encloseLeft l cs)
    (hleft : encloseLeft = true ∨ op.precedence.rank ≤ l.precedence.rank)
    (right : Rendering encloseRight r ds)
    (hright : encloseRight = true ∨ op.precedence.rank < r.precedence.rank) :
    Rendering false (.binary op l r) (cs ++ ' ' :: (op.symbol.toList ++ ' ' :: ds))
  | enclosed {e : Expr} {cs : List Char} (inside : Rendering false e cs) :
    Rendering true e (parenthesize cs)

private theorem Expr.comma_lt_precedence (e : Expr) : Precedence.comma.rank < e.precedence.rank := by
  cases e with
  | binary op l r => exact op.precedence_rank.1
  | signed sign e => exact (by decide : Precedence.comma.rank < Precedence.unary.rank)
  | _ => exact (by decide : Precedence.comma.rank < Precedence.chain.rank)

/-- What may stand behind a rendering: nothing, or a space. -/
def Spaced (rest : List Char) : Prop := rest = [] ∨ ∃ cs, rest = ' ' :: cs

private theorem Spaced.nameEnds {rest : List Char} (h : Spaced rest) : NameEnds rest := by
  rcases h with rfl | ⟨cs, rfl⟩
  · exact ⟨breaks_nil, nofun⟩
  · exact nameEnds_of_kind (by simp) cs

private theorem Spaced.head_ne {rest : List Char} (h : Spaced rest) {c : Char} (hc : c ≠ ' ') :
    rest.head? ≠ some c := by
  rcases h with rfl | ⟨cs, rfl⟩
  · exact nofun
  · exact fun heq => hc (Option.some.inj heq).symm

private theorem Stops.mono {p q : Precedence} {rest : List Char} (h : Stops p rest)
    (hle : p.rank ≤ q.rank) : Stops q rest :=
  fun t hkind htext precedence hp => Nat.le_trans (h t hkind htext precedence hp) hle

/-- A blank in front makes no difference to what stops an operator. -/
theorem Stops.blank {p : Precedence} {cs : List Char} (h : Stops p cs) : Stops p (' ' :: cs) := by
  intro t hkind htext
  rw [nextKind_blank] at hkind
  rw [nextText_blank] at htext
  exact h t hkind htext

private theorem Begins.blank {cs : List Char} (h : Begins cs) : Begins (' ' :: cs) := by
  refine ⟨by simp, ?_, fun hquestion => ?_⟩
  · rw [nextKind_blank]
    exact h.kind
  · rw [nextKind_blank] at hquestion
    rw [afterToken_blank]
    exact h.placeholder hquestion

namespace Parser

variable {fits : Prop} {levels : Nat} {least : Precedence} {e e' : Expr}
  {cs rest after : List Char}

/-- An operator stops what holds together as tightly as it binds. -/
theorem stops_symbol (op : BinaryOp) {p : Precedence} (h : op.precedence.rank ≤ p.rank) (cs : List Char) :
    Stops p (op.symbol.toList ++ ' ' :: cs) := by
  intro t hkind htext precedence hp
  rw [(starts_symbol op cs).kind] at hkind
  rw [(starts_symbol op cs).text] at htext
  rw [(binaryOperator?_of_token hkind htext).2] at hp
  rwa [← Option.some.inj hp]

/-- A blank behind what is read makes no difference. -/
theorem Reads.dropBlank {α : Type} {p : Parser α} {a : α} (h : Reads fits p cs a (' ' :: rest)) :
    Reads fits p cs a rest :=
  fun s hs => ⟨fun hfits => ((h s hs).1 hfits).imp_right ParserState.At.blank, (h s hs).2⟩

/-! ### Operands of one token -/

/-- Digits are read as the integer that they denote, if it fits. -/
theorem reads_digits {ds : List Char} {i : Int64} (hne : ds ≠ [])
    (hdigits : ∀ c ∈ ds, Text.isDigit c = true) (hvalue : (Integer.ofDigits ds : Int) = i.toInt)
    (hrest : Breaks rest) :
    Reads True (primary (operandAt levels) levels) (ds ++ rest) (.literal (.integer i)) rest := by
  have hread : Integer.read? ds = some i := by
    rw [read?_digits hne hdigits, hvalue, Integer.fit?_toInt]
  obtain ⟨d, ds, rfl⟩ := List.exists_cons_of_ne_nil hne
  rw [List.forall_mem_cons] at hdigits
  have hstarts := starts_digits hdigits.1 hdigits.2 hrest
  refine reads_current fun t hkind _ => ?_
  rw [hkind, hstarts.kind]
  refine reads_advance fun t _ htext => ?_
  rw [hstarts.text] at htext
  rw [hstarts.rest, integerLiteral, htext, String.toList_ofList, hread]
  exact reads_pure

/-- A quoted text is read as the string. -/
theorem reads_quote (s : String) {q : Char} (hq : q = '\x22' ∨ q = '\x27')
    (hrest : rest.head? ≠ some q) :
    Reads True (primary (operandAt levels) levels) (Text.quote q s.toList ++ rest)
      (.literal (.string s)) rest := by
  have hstarts := starts_quote hq s.toList hrest
  have hsize : q.utf8Size = 1 := by rcases hq with rfl | rfl <;> decide
  refine reads_current fun t hkind _ => ?_
  rw [hkind, hstarts.kind]
  refine reads_advance fun t _ htext => ?_
  rw [hstarts.text] at htext
  rw [hstarts.rest, htext, String.toList_ofList, Text.unquote_quote hsize, String.ofList_toList]
  exact reads_pure

private theorem reads_dollar {name : QName} (hname : name.WellFormed) (hrest : NameEnds rest) :
    Reads True (primary (operandAt levels) levels) ('$' :: name.render.toList ++ rest) (.var name)
      rest := by
  have hstarts := starts_mark (c := '$') rfl (name.render.toList ++ rest)
  refine reads_current fun t hkind _ => ?_
  rw [List.cons_append, hstarts.kind] at hkind
  rw [hkind]
  refine reads_advance fun _ _ _ => ?_
  rw [List.cons_append, hstarts.rest]
  exact (reads_qualifiedName hname hrest _).then reads_pure

/-! ### Renderings -/

/-- Every rendering begins like an operand. -/
theorem begins_rendering {enclosed : Bool} (h : Rendering enclosed e cs) (hrest : Spaced rest) :
    Begins (cs ++ rest) := by
  induction h generalizing rest with
  | @integer i ds hne hdigits hvalue =>
    obtain ⟨d, ds, rfl⟩ := List.exists_cons_of_ne_nil hne
    rw [List.forall_mem_cons] at hdigits
    refine begins_of_starts (starts_digits hdigits.1 hdigits.2 hrest.nameEnds.breaks) ?_ (by decide)
    exact fun hhead => absurd hdigits.1 (Option.some.inj hhead ▸ by decide)
  | @string s q hq =>
    refine begins_of_starts (starts_quote hq s.toList (hrest.head_ne ?_)) ?_ (by decide)
    · rcases hq with rfl | rfl <;> decide
    · rcases hq with rfl | rfl <;> simp [Text.quote]
  | var hname => exact begins_of_starts (starts_mark (c := '$') rfl _) (by simp) (by decide)
  | signed sign operand hoperand ih =>
    rw [List.append_assoc]
    exact begins_sign sign _
  | binary op left hleft right hright ihl ihr =>
    rw [List.append_assoc]
    exact ihl (Or.inr ⟨_, rfl⟩)
  | enclosed inside ih => exact begins_parenthesis (by simp)

/-- A rendering is read as an operand, on which what follows goes on to climb: unless it is enclosed,
it must bind tighter than what is in front of it, and what follows it no tighter than it does. -/
theorem reads_rendering {enclosed : Bool} (h : Rendering enclosed e cs)
    (hlevels : 2 * e.height + enclosed.toNat ≤ levels)
    (hleast : enclosed = true ∨ least.rank < e.precedence.rank) (hrest : Spaced rest)
    (hstops : enclosed = true ∨ Stops e.precedence rest)
    (hclimb : Reads fits (climb (operandAt levels) levels least e) rest e' after) :
    Reads fits (operandAt (levels + 1) least) (cs ++ rest) e' after := by
  induction h generalizing levels least rest fits e' after with
  | integer hne hdigits hvalue =>
    exact (reads_operandAt (reads_digits hne hdigits hvalue hrest.nameEnds.breaks) hclimb).congr
      (and_iff_right trivial)
  | @string s q hq =>
    have hhead : rest.head? ≠ some q := hrest.head_ne (by rcases hq with rfl | rfl <;> decide)
    exact (reads_operandAt (reads_quote s hq hhead) hclimb).congr (and_iff_right trivial)
  | var hname =>
    exact (reads_operandAt (reads_dollar hname hrest.nameEnds) hclimb).congr (and_iff_right trivial)
  | @signed sign enclosed e cs operand hoperand ih =>
    have hheight := Expr.height_lt_of_mem_children (e := .signed sign e) (c := e) (by simp [Expr.children])
    have henclosed := enclosed.toNat_le
    obtain ⟨levels, rfl⟩ : ∃ n, levels = n + 1 := ⟨levels - 1, by omega⟩
    have hunary : Stops .unary rest := hstops.resolve_left Bool.false_ne_true
    have hinside : Reads True (operandAt (levels + 1) .unary) (cs ++ rest) e rest :=
      ih (by omega) hoperand hrest (hoperand.imp_right fun hlt => hunary.mono (Nat.le_of_lt hlt))
        (reads_climb_stop hunary)
    rw [List.append_assoc]
    exact (reads_operandAt (reads_signed sign hinside.blank) hclimb).congr (and_iff_right trivial)
  | @binary op encloseLeft encloseRight l r cs ds left hleft right hright ihl ihr =>
    have hl := Expr.height_lt_of_mem_children (e := .binary op l r) (c := l) (by simp [Expr.children])
    have hr := Expr.height_lt_of_mem_children (e := .binary op l r) (c := r) (by simp [Expr.children])
    have henclosed := encloseLeft.toNat_le
    have henclosed' := encloseRight.toNat_le
    obtain ⟨levels, rfl⟩ : ∃ n, levels = n + 1 := ⟨levels - 1, by omega⟩
    have hlt : least.rank < op.precedence.rank := hleast.resolve_left Bool.false_ne_true
    have hop : Stops op.precedence rest := hstops.resolve_left Bool.false_ne_true
    -- The right operand ends where the operator in front of it ends it.
    have hright : Reads True (operandAt (levels + 1) op.precedence) (ds ++ rest) r rest :=
      ihr (by omega) hright hrest (hright.imp_right fun hlt => hop.mono (Nat.le_of_lt hlt))
        (reads_climb_stop hop)
    have hoperator : Reads fits (climb (operandAt (levels + 1)) (levels + 1) least l)
        (op.symbol.toList ++ ' ' :: (ds ++ rest)) e' after :=
      (reads_climb_binary (persists_operandAt _) (starts_symbol op _)
        (fun _ => binaryOperator?_of_token) hlt hright.blank hclimb).congr (and_iff_right trivial)
    have htext : cs ++ ' ' :: (op.symbol.toList ++ ' ' :: ds) ++ rest =
        cs ++ ' ' :: (op.symbol.toList ++ ' ' :: (ds ++ rest)) := by simp
    rw [htext]
    exact ihl (by omega) (hleft.imp_right (Nat.lt_of_lt_of_le hlt)) (Or.inr ⟨_, rfl⟩)
      (hleft.imp_right fun hle => (stops_symbol op hle _).blank) hoperator.blank
  | @enclosed e cs inside ih =>
    have hlevels : 2 * e.height + 1 ≤ levels := hlevels
    obtain ⟨levels, rfl⟩ : ∃ n, levels = n + 1 := ⟨levels - 1, by omega⟩
    have hclose : nextKind (' ' :: ')' :: rest) = .rightParen := by
      rw [nextKind_blank, (starts_mark rfl rest).kind]
    have hstop {p : Precedence} : Stops p (' ' :: ')' :: rest) := stops_of_kind (by simp [hclose])
    have hspaced : Spaced (' ' :: ')' :: rest) := Or.inr ⟨_, rfl⟩
    have hinside : Reads True (operandAt (levels + 1) .comma) (cs ++ ' ' :: ')' :: rest) e
        (' ' :: ')' :: rest) :=
      ih (Nat.le_of_succ_le_succ hlevels) (Or.inr e.comma_lt_precedence) hspaced (Or.inr hstop)
        (reads_climb_stop hstop)
    have hsequence : ¬ e.IsSequence := by cases inside <;> exact id
    have htext : parenthesize cs ++ rest = '(' :: ' ' :: (cs ++ ' ' :: ')' :: rest) := by
      simp [parenthesize]
    rw [htext]
    exact (reads_operandAt (reads_primary_group (by simp) (reads_group_single
      (begins_rendering inside hspaced).blank (Or.inl hsequence) hinside.blank.dropBlank))
      hclimb).congr (and_iff_right trivial)

/-- A text that is read as an operand up to its end is read without errors. -/
theorem read_of_single {cs : List Char} {e : Expr} (hkind : nextKind cs ≠ .eof)
    (h : Reads True (single (operandAt maxNesting)) cs e []) :
    Expr.read (String.ofList cs) = (e, []) := by
  have hprogram : Reads True program cs e [] := by
    refine (reads_isAt .eof).then ?_
    rw [beq_false_of_ne hkind]
    exact (reads_commaExpr_single h (by decide)).then ((reads_isAt .eof).then reads_pure)
  obtain ⟨hvalue, hat⟩ := (hprogram _ (ParserState.At.start cs)).1 trivial
  rw [Expr.read, String.toList_ofList, hvalue, hat.errors]
  rfl

end Parser

/-- Every rendering of an expression that is no more than 60 expressions high is read as it, without
errors. How tightly an operator binds in it is told by the table for tokens. -/
theorem Expr.read_rendering {enclosed : Bool} {e : Expr} {cs : List Char} (h : Rendering enclosed e cs)
    (hheight : e.height ≤ 60) :
    Expr.read (String.ofList cs) = (e, []) ∧
      ∀ (op : BinaryOp) (t : Token), t.kind = op.kind → t.text = op.symbol →
        binaryOperator? t = some op ∧ t.infixPrecedence? = some op.precedence := by
  refine ⟨?_, fun op t hkind htext => binaryOperator?_of_token hkind htext⟩
  have hspaced : Spaced [] := Or.inl rfl
  have hstop {p : Precedence} : Stops p [] := stops_of_kind (by decide)
  have hlevels : 2 * e.height + enclosed.toNat ≤ 127 := by
    have henclosed := enclosed.toNat_le
    omega
  have hsingle : Reads True (operandAt maxNesting .comma) (cs ++ []) e [] :=
    reads_rendering h hlevels (Or.inr e.comma_lt_precedence) hspaced (Or.inr hstop)
      (reads_climb_stop hstop)
  have hbegins := begins_rendering h hspaced
  have hprogram : Reads True program cs e [] := by
    rw [List.append_nil] at hsingle hbegins
    refine (reads_isAt .eof).then ?_
    rw [beq_false_of_ne (hbegins.ne (by decide))]
    exact (reads_commaExpr_single hsingle (by decide)).then ((reads_isAt .eof).then reads_pure)
  obtain ⟨hvalue, hat⟩ := (hprogram _ (ParserState.At.start cs)).1 trivial
  rw [Expr.read, String.toList_ofList, hvalue, hat.errors]
  rfl

/-- A difference of a product and a sum in parentheses, in front of it a sign for a mapping. -/
theorem Expr.read_rendering_difference :
    let a : Expr := .var (.simple "a")
    let seven : Expr := .literal (.integer 7)
    let e : Expr := .binary (.arithmetic .sub)
      (.binary (.arithmetic .mul) (.signed .minus (.binary .simpleMap a seven)) a)
      (.binary (.arithmetic .add) a seven)
    e.height ≤ 60 ∧ Expr.read "- $a ! 007 * $a - ( $a + ( 7 ) )" = (e, []) := by
  intro a seven e
  have ha : Rendering false a "$a".toList := .var ⟨by decide, nofun⟩
  have hseven : Rendering false seven "7".toList := .integer (by decide) (by decide) (by decide)
  have hzeros : Rendering false seven "007".toList := .integer (by decide) (by decide) (by decide)
  have hmap : Rendering false (.binary .simpleMap a seven) "$a ! 007".toList :=
    .binary .simpleMap ha (Or.inr (by decide)) hzeros (Or.inr (by decide))
  have hproduct : Rendering false (.binary (.arithmetic .mul) _ a) "- $a ! 007 * $a".toList :=
    .binary (.arithmetic .mul) (.signed .minus hmap (Or.inr (by decide))) (Or.inr (by decide)) ha
      (Or.inr (by decide))
  have hsum : Rendering true (.binary (.arithmetic .add) a seven) "( $a + ( 7 ) )".toList :=
    .enclosed (.binary (.arithmetic .add) ha (Or.inr (by decide)) (.enclosed hseven) (Or.inl rfl))
  have he : Rendering false e "- $a ! 007 * $a - ( $a + ( 7 ) )".toList :=
    .binary (.arithmetic .sub) hproduct (Or.inr (by decide)) hsum (Or.inl rfl)
  have hleaf (n : Nat) : a.height ≤ n ∧ seven.height ≤ n :=
    ⟨height_le (by simp [a, children]), height_le (by simp [seven, children])⟩
  have hbinary {op : BinaryOp} {l r : Expr} {n : Nat} (hl : l.height ≤ n) (hr : r.height ≤ n) :
      (binary op l r).height ≤ n + 1 :=
    height_le (List.forall_mem_cons.mpr ⟨Nat.lt_succ_of_le hl,
      List.forall_mem_singleton.mpr (Nat.lt_succ_of_le hr)⟩)
  have hsigned : (signed .minus (binary .simpleMap a seven)).height ≤ 2 :=
    height_le (List.forall_mem_singleton.mpr (Nat.lt_succ_of_le (hbinary (hleaf 0).1 (hleaf 0).2)))
  have hheight : e.height ≤ 60 :=
    (hbinary (hbinary hsigned (hleaf 2).1) (hbinary (hleaf 2).1 (hleaf 2).2)).trans (by decide)
  refine ⟨hheight, ?_⟩
  have hread := (read_rendering he hheight).1
  rwa [String.ofList_toList] at hread

end TreeQuery
