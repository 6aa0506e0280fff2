import TreeQuery.Proofs.Parser.Precedence
import TreeQuery.Proofs.Parser.Steps

/-!
# No word is reserved

A word is an operator only behind an operand, and a keyword only in front of `$`, a parenthesis, a
brace or two colons. Where an operand should start and none of these follows, every name is a step to
the children of that name, the names that are keywords and operators elsewhere among them.
-/

namespace TreeQuery

open TreeQuery.Parser

@[simp] private theorem QName.render_simple (s : String) : (QName.simple s).render = s := rfl

private theorem QName.WellFormed.head_ne_slash {name : QName} (h : name.WellFormed) :
    name.render.toList.head? ≠ some '/' := by
  obtain ⟨word, rest, hstarts, -⟩ := exists_starts_render h ⟨breaks_nil, nofun⟩
  rw [List.append_nil] at hstarts
  exact TreeQuery.head_ne_slash (by rw [hstarts.kind]; decide)

/-- The step to the children of a name, without predicates. -/
def Expr.child (name : QName) : Expr := .step .child (.named name) []

namespace Parser

variable {name : QName} {p : Precedence} {word : String} {op : BinaryOp} {e' : Expr}
  {levels : Nat} {rest : List Char}

/-! ### Names in front -/

/-- What stands behind a word that is no step, or behind one that is a step with predicates. -/
def marks : List TokenKind := [.dollar, .leftParen, .leftBrace, .colonColon, .hash, .leftBracket]

private theorem not_mem_marks_of_kind {kind : TokenKind} (hrest : nextKind rest = kind)
    (hkind : kind ∉ marks) :
    nextKind rest ∉ marks := by
  rwa [hrest]

private theorem reads_namedOperand_child (h : name.WellFormed) (hrest : NameEnds rest)
    (hmarks : nextKind rest ∉ marks) :
    Reads True (namedOperand (operandAt levels)) (name.render.toList ++ rest) (.child name) rest := by
  have hne {kind : TokenKind} (hkind : kind ∈ marks) : nextKind rest ≠ kind :=
    fun heq => hmarks (heq ▸ hkind)
  refine reads_current fun start _ _ => (reads_takeName h hrest).then ?_
  refine (reads_eat_of_ne (hne (by decide))).then ((reads_eat_of_ne (hne (by decide))).then ?_)
  refine (reads_nameTestOf_named h start).then ?_
  exact (reads_many_nil _ _ (hne (by decide))).then reads_pure

/-- A name is a step, whatever word it starts with, unless the token behind it says otherwise. -/
theorem reads_primary_child (h : name.WellFormed) (hrest : NameEnds rest)
    (hmarks : nextKind rest ∉ marks) :
    Reads True (primary (operandAt levels) levels) (name.render.toList ++ rest) (.child name) rest := by
  have hkeywords : nextKind rest ∉ [.dollar, .leftBrace, .colonColon] :=
    fun hmem => hmarks ((by decide : [.dollar, .leftBrace, .colonColon] ⊆ marks) hmem)
  refine reads_wordOperand_named h hrest hkeywords (fun hparen => ?_)
    (reads_namedOperand_child h hrest hmarks)
  exact absurd (by rw [hparen]; decide) hmarks

/-- A name at the end of the text is a whole operand. -/
theorem reads_last_child (h : name.WellFormed) (levels : Nat) :
    Reads True (operandAt (levels + 1) p) name.render.toList (.child name) [] := by
  have hprimary : Reads True (primary (operandAt levels) levels) (name.render.toList ++ [])
      (.child name) [] := reads_primary_child h ⟨breaks_nil, nofun⟩ (by decide)
  rw [List.append_nil] at hprimary
  exact (reads_operandAt hprimary (reads_climb_stop (stops_of_kind (by decide)))).congr and_self_iff

/-! ### Words and slashes behind -/

/-- What the tables say about a word that is an operator between operands. -/
theorem wordOperators_spec (h : (word, op) ∈ wordOperators) :
    isSimpleName word.toList = true ∧ ∀ t : Token, t.kind = .name → t.text = word →
      binaryOperator? t = some op ∧ t.infixPrecedence? = some op.precedence := by
  have hall : ∀ entry ∈ wordOperators, isSimpleName entry.1.toList = true ∧
      wordOperators.lookup entry.1 = some entry.2 ∧
        infixWords.lookup entry.1 = some entry.2.precedence := by decide
  obtain ⟨hsimple, hlookup, hinfix⟩ := hall _ h
  refine ⟨hsimple, fun t hkind htext => ⟨?_, ?_⟩⟩
  · rw [binaryOperator?, if_pos hkind, htext, hlookup]
  · rw [Token.infixPrecedence?, hkind, htext, ← hinfix]

/-- A text that starts with a name is read without errors if what is behind the name is climbed up to
its end. -/
theorem read_of_child {text : String} (htext : text.toList = name.render.toList ++ rest)
    (h : name.WellFormed) (hrest : NameEnds rest) (hmarks : nextKind rest ∉ marks)
    (hclimb : Reads True (climb (operandAt 127) 127 .comma (.child name)) rest e' []) :
    Expr.read text = (e', []) := by
  have hkind : nextKind (name.render.toList ++ rest) ≠ .eof := by
    rw [nextKind_render h hrest]
    decide
  have hread := read_of_single hkind
    ((reads_operandAt (reads_primary_child h hrest hmarks) hclimb).congr and_self_iff)
  rwa [← htext, String.ofList_toList] at hread

end Parser

namespace Expr

variable {a b : QName} {word : String} {op : BinaryOp}

private theorem read_child (ha : a.WellFormed) : read a.render = (child a, []) :=
  read_of_child (List.append_nil _).symm ha ⟨breaks_nil, nofun⟩ (by decide)
    (reads_climb_stop (stops_of_kind (by decide)))

private theorem read_word_between (ha : a.WellFormed) (hb : b.WellFormed)
    (hword : (word, op) ∈ wordOperators) :
    read (a.render ++ " " ++ word ++ " " ++ b.render) = (.binary op (child a) (child b), []) := by
  have htext : (a.render ++ " " ++ word ++ " " ++ b.render).toList =
      a.render.toList ++ ' ' :: (word.toList ++ ' ' :: b.render.toList) := by simp
  obtain ⟨hsimple, htoken⟩ := wordOperators_spec hword
  have hstarts : Starts (word.toList ++ ' ' :: b.render.toList) .name word _ :=
    starts_word hsimple (breaks_cons (by decide) _)
  have hclimb : Reads True (climb (operandAt 127) 127 .comma (child a))
      (word.toList ++ ' ' :: b.render.toList) (.binary op (child a) (child b)) [] :=
    (reads_climb_binary (persists_operandAt _) hstarts htoken op.precedence_rank.1
      (reads_last_child hb 126).blank (reads_climb_stop (stops_of_kind (by decide)))).congr and_self_iff
  exact read_of_child htext ha (nameEnds_of_kind (by simp) _)
    (not_mem_marks_of_kind hstarts.blank.kind (by decide)) hclimb.blank

private theorem read_slash_between (ha : a.WellFormed) (hb : b.WellFormed) :
    read (a.render ++ "/" ++ b.render) = (.path (child a) (child b), []) := by
  have htext : (a.render ++ "/" ++ b.render).toList = a.render.toList ++ '/' :: b.render.toList := by
    simp
  have hclimb : Reads True (climb (operandAt 127) 127 .comma (child a)) ('/' :: b.render.toList)
      (.path (child a) (child b)) [] :=
    (reads_climb_slash (persists_operandAt _) hb.head_ne_slash (by decide) (reads_last_child hb 126)
      (reads_climb_stop (stops_of_kind (by decide)))).congr and_self_iff
  exact read_of_child htext ha (nameEnds_of_kind (by simp) _)
    (not_mem_marks_of_kind (starts_slash hb.head_ne_slash).kind (by decide)) hclimb

/-- Every name, keywords and operators included, is a step to children: alone, on both sides of every
word operator, and on both sides of a slash. -/
theorem no_word_is_reserved {a b : String} (ha : isSimpleName a.toList = true)
    (hb : isSimpleName b.toList = true) :
    (∀ word op, (word, op) ∈ [
        ("or", .or), ("and", .and),
        ("eq", .comparison (.value .eq)), ("ne", .comparison (.value .ne)),
        ("lt", .comparison (.value .lt)), ("le", .comparison (.value .le)),
        ("gt", .comparison (.value .gt)), ("ge", .comparison (.value .ge)),
        ("is", .comparison (.node .is)), ("to", .range),
        ("div", .arithmetic .div), ("idiv", .arithmetic .idiv), ("mod", .arithmetic .mod),
        ("union", .nodes .union), ("intersect", .nodes .intersect), ("except", .nodes .except)] →
      read (a ++ " " ++ word ++ " " ++ b) =
        (.binary op (child (.simple a)) (child (.simple b)), [])) ∧
    read a = (child (.simple a), []) ∧
    read (a ++ "/" ++ b) = (.path (child (.simple a)) (child (.simple b)), []) := by
  have ha : (QName.simple a).WellFormed := ⟨ha, nofun⟩
  have hb : (QName.simple b).WellFormed := ⟨hb, nofun⟩
  have hchild := read_child ha
  have hslash := read_slash_between ha hb
  rw [QName.render_simple] at hchild
  rw [QName.render_simple, QName.render_simple] at hslash
  refine ⟨fun word op hword => ?_, hchild, hslash⟩
  have hbetween := read_word_between ha hb hword
  rwa [QName.render_simple, QName.render_simple] at hbetween

/-- A word for an operator as a name on its left, and a keyword as a name on its right. -/
theorem no_word_is_reserved_div :
    isSimpleName "div".toList = true ∧ isSimpleName "for".toList = true ∧
      read "div div for" =
        (.binary (.arithmetic .div) (child (.simple "div")) (child (.simple "for")), []) ∧
      read "for/div" = (.path (child (.simple "for")) (child (.simple "div")), []) := by
  have hdiv : isSimpleName "div".toList = true := by decide
  have hfor : isSimpleName "for".toList = true := by decide
  refine ⟨hdiv, hfor, ?_, ?_⟩
  · exact (no_word_is_reserved hdiv hfor).1 "div" (.arithmetic .div) (by simp)
  · exact (no_word_is_reserved hfor hdiv).2.2

end Expr

end TreeQuery
