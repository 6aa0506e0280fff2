import TreeQuery.Proofs.Expr.Reread
import TreeQuery.Proofs.Parser.Names

/-!
# Reading kind tests

A kind test may be written in more ways than it is printed: the target of a processing instruction in
quotes, a star for the name of an element, a type behind the name, a test inside that for documents.
`KindTest.Written` lists what may stand in the parentheses, and each of these texts is read as the test.
-/

namespace TreeQuery

/-- The word in front of the parenthesis. -/
def KindTest.keyword : KindTest → String
  | .anyNode => "node"
  | .text => "text"
  | .comment => "comment"
  | .processingInstruction _ => "processing-instruction"
  | .document => "document-node"
  | .element _ => "element"
  | .attribute _ => "attribute"

/-- What stands in the parentheses. -/
def KindTest.argument : KindTest → String
  | .processingInstruction target => target.getD ""
  | .element name | .attribute name => name.elim "" QName.render
  | _ => ""

/-- A node test is written with its word, and its argument in parentheses. -/
theorem KindTest.toList_render (test : KindTest) (rest : List Char) :
    test.render.toList ++ rest =
      test.keyword.toList ++ '(' :: (test.argument.toList ++ ')' :: rest) := by
  have hbare (word : String) : (word ++ "()").toList ++ rest =
      word.toList ++ '(' :: ("".toList ++ ')' :: rest) := by
    simp
  have hnamed (word name : String) : (word ++ "(" ++ name ++ ")").toList ++ rest =
      word.toList ++ '(' :: (name.toList ++ ')' :: rest) := by
    simp
  cases test with
  | anyNode => exact hbare "node"
  | text => exact hbare "text"
  | comment => exact hbare "comment"
  | document => exact hbare "document-node"
  | processingInstruction target =>
    cases target with
    | none => exact hbare "processing-instruction"
    | some target => exact hnamed "processing-instruction" target
  | element name =>
    cases name with
    | none => exact hbare "element"
    | some n => exact hnamed "element" n.render
  | «attribute» name =>
    cases name with
    | none => exact hbare "attribute"
    | some n => exact hnamed "attribute" n.render

/-- The words of node tests are simple names. -/
theorem isSimpleName_keyword (test : KindTest) : isSimpleName test.keyword.toList = true := by
  cases test with
  | anyNode | text | comment | document => decide
  | processingInstruction _ => exact (by decide : isSimpleName "processing-instruction".toList = true)
  | element _ => exact (by decide : isSimpleName "element".toList = true)
  | «attribute» _ => exact (by decide : isSimpleName "attribute".toList = true)

/-- Such a word is read as one token. -/
theorem starts_keyword (test : KindTest) (cs : List Char) :
    Starts (test.keyword.toList ++ '(' :: cs) .name test.keyword ('(' :: cs) :=
  starts_word (isSimpleName_keyword test) (breaks_cons (by decide) _)

/-- No qualified name starts with a colon. -/
theorem QName.WellFormed.head_ne {n : QName} (hn : n.WellFormed) (rest : List Char) :
    (n.render.toList ++ rest).head? ≠ some ':' := by
  obtain ⟨hlocal, ⟨-, htext⟩ | ⟨q, -, hq, htext⟩⟩ := hn.toList_render
  · rw [htext]
    exact hlocal.head_ne
  · rw [htext, List.append_assoc]
    exact hq.head_ne

/-- What may be written for the name in a test for elements or attributes. -/
inductive NameWritten : List Char → Option QName → Prop where
  | omitted : NameWritten [] none
  | star : NameWritten ['*'] none
  | name {n : QName} (hn : n.WellFormed) : NameWritten n.render.toList (some n)

/-- What may be written behind the name: a type, which does not count. -/
inductive TypeWritten : List Char → Prop where
  | omitted : TypeWritten []
  | type {gap : List Char} (hgap : gap = [] ∨ gap = [' ']) {n : QName} (hn : n.WellFormed) :
    TypeWritten (',' :: (gap ++ n.render.toList))
  | nillable {gap : List Char} (hgap : gap = [] ∨ gap = [' ']) {n : QName} (hn : n.WellFormed) :
    TypeWritten (',' :: (gap ++ (n.render.toList ++ ['?'])))

namespace KindTest

/-- What may be written in the parentheses of a kind test that is nested no more than so many levels
deep. The test in a test for documents does not count. -/
inductive Written : Nat → List Char → KindTest → Prop where
  | bare {levels : Nat} {test : KindTest} (h : ofKeyword? test.keyword = some test) :
    Written levels [] test
  | target {levels : Nat} {target : String} (h : isSimpleName target.toList = true) :
    Written levels target.toList (.processingInstruction (some target))
  | quoted {levels : Nat} {q : Char} (hq : q = '\x22' ∨ q = '\x27') (target : String) :
    Written levels (Text.quote q target.toList) (.processingInstruction (some target))
  | document {levels : Nat} {cs : List Char} {test : KindTest} (h : Written levels cs test) :
    Written (levels + 1) (test.keyword.toList ++ '(' :: (cs ++ [')'])) .document
  | element {levels : Nat} {cs ds : List Char} {name : Option QName} (hname : NameWritten cs name)
    (htype : TypeWritten ds) : Written levels (cs ++ ds) (.element name)
  | «attribute» {levels : Nat} {cs ds : List Char} {name : Option QName}
    (hname : NameWritten cs name) (htype : TypeWritten ds) : Written levels (cs ++ ds) (.attribute name)

@[simp] theorem keyword_reread (test : KindTest) : test.reread.keyword = test.keyword := by
  unfold reread
  split <;> rfl

/-- What is printed in the parentheses may be written there. -/
theorem written_argument {test : KindTest} (hformed : test.WellFormed) (hreadable : test.Readable)
    (levels : Nat) : Written levels test.argument.toList test.reread := by
  cases test with
  | anyNode | text | comment | document => exact .bare rfl
  | processingInstruction target =>
    cases target with
    | none => exact .bare rfl
    | some target =>
      rcases hreadable with rfl | htarget
      · exact .bare rfl
      · have hreread : (processingInstruction (some target)).reread =
            .processingInstruction (some target) := by
          unfold reread
          split
          · next heq =>
            obtain rfl := Option.some.inj (processingInstruction.inj heq)
            exact absurd rfl (isName_of_isSimpleName htarget).ne_nil
          · rfl
        rw [hreread]
        exact .target htarget
  | element name | «attribute» name =>
    cases name with
    | none => exact .bare rfl
    | some n =>
      rw [← List.append_nil (argument _).toList]
      first | exact .element (.name hformed) .omitted | exact .attribute (.name hformed) .omitted

/-- No kind test is mistaken for a comment. -/
theorem Written.head_ne {levels : Nat} {cs : List Char} {test : KindTest} (h : Written levels cs test)
    (rest : List Char) : (cs ++ ')' :: rest).head? ≠ some ':' := by
  have hclose : (')' :: rest).head? ≠ some ':' := by simp
  have hname {cs ds : List Char} {name : Option QName} (hname : NameWritten cs name)
      (htype : TypeWritten ds) : (cs ++ ds ++ ')' :: rest).head? ≠ some ':' := by
    have htail : (ds ++ ')' :: rest).head? ≠ some ':' := by
      cases htype <;> simp
    rw [List.append_assoc]
    cases hname with
    | omitted => exact htail
    | star => simp
    | name hn => exact hn.head_ne _
  cases h with
  | bare h => exact hclose
  | target h => exact (isName_of_isSimpleName h).head_ne
  | quoted hq target =>
    rw [Text.quote, List.cons_append]
    rcases hq with rfl | rfl <;> simp
  | document h =>
    rw [List.append_assoc]
    exact (isName_of_isSimpleName (isSimpleName_keyword _)).head_ne
  | element hn ht | «attribute» hn ht => exact hname hn ht

/-- No argument of a node test starts with a colon, so the parenthesis in front of it opens no comment.
-/
theorem head_argument {test : KindTest} (hformed : test.WellFormed) (hreadable : test.Readable)
    (rest : List Char) : (test.argument.toList ++ ')' :: rest).head? ≠ some ':' :=
  (written_argument hformed hreadable 0).head_ne rest

end KindTest

/-- Quotes of one byte are taken off again. -/
theorem Text.unquote_quote {q : Char} (hq : q.utf8Size = 1) (cs : List Char) :
    Text.unquote (Text.quote q cs) = cs := by
  rw [Text.quote, List.cons_append]
  cases hinside : Text.double q cs ++ [q] with
  | nil => simp at hinside
  | cons d ds =>
    have hlast : (d :: ds).getLast? = some q := by rw [← hinside, List.getLast?_append]; rfl
    have hinit : (d :: ds).dropLast = Text.double q cs := by
      rw [← hinside, List.dropLast_append_of_ne_nil (by simp)]
      simp
    rw [Text.unquote, hlast, hinit, Text.collapse_double]
    simp [hq]

/-- Any other character that breaks words off ends a name. -/
theorem nameEnds_cons {c : Char} (h : isNameChar c = false ∧ c ≠ '.' ∧ c ≠ '\x22' ∧ c ≠ ':')
    (cs : List Char) : NameEnds (c :: cs) :=
  ⟨breaks_cons ⟨h.1, h.2.1, h.2.2.1⟩ cs, fun _ heq => absurd (List.cons.inj heq).1 h.2.2.2⟩

end TreeQuery

namespace TreeQuery.Parser

variable {cs rest : List Char} {text : String}

/-- The parenthesis behind what has been read. -/
theorem reads_close {α : Type} (a : α) :
    Reads True (do let _ ← expect .rightParen "')'"; return a) (')' :: rest) a rest :=
  (reads_expect (starts_mark rfl rest) _).then reads_pure

/-- An opening parenthesis is a token if it opens no comment. -/
theorem starts_leftParen (h : cs.head? ≠ some ':') : Starts ('(' :: cs) .leftParen "(" cs := by
  refine @starts_of_lexeme '(' [] _ _ (by decide) (Or.inr h) ?_
  rfl

private theorem kind_typeWritten {ts : List Char} (h : TypeWritten ts) :
    nextKind (ts ++ ')' :: rest) ∈ [.rightParen, .comma] := by
  cases h with
  | omitted => rw [List.nil_append, (starts_mark rfl rest).kind]; decide
  | type | nillable => rw [List.cons_append, (starts_mark rfl _).kind]; decide

private theorem nameEnds_typeWritten {ts : List Char} (h : TypeWritten ts) :
    NameEnds (ts ++ ')' :: rest) := by
  cases h with
  | omitted => exact nameEnds_cons (by decide) _
  | type | nillable => exact nameEnds_cons (by decide) _

/-- A type behind the name is read, and makes no difference. -/
theorem reads_typeWritten {ts : List Char} (h : TypeWritten ts) (name : Option QName) :
    Reads True
      (do
        if ← eat .comma then
          let _ ← qualifiedName "type name"
          let _ ← eat .question
        return name)
      (ts ++ ')' :: rest) name (')' :: rest) := by
  have hclose := starts_mark (c := ')') rfl rest
  have hgap {α : Type} {p : Parser α} {a : α} {gap cs ds : List Char} (hgap : gap = [] ∨ gap = [' '])
      (hp : Reads True p cs a ds) : Reads True p (gap ++ cs) a ds := by
    rcases hgap with rfl | rfl
    · exact hp
    · exact hp.blank
  cases h with
  | omitted => exact (reads_eat_of_ne (hclose.kind.trans_ne (by decide))).then reads_pure
  | type hblank hn =>
    have hends : NameEnds (')' :: rest) := nameEnds_cons (by decide) rest
    rw [List.cons_append, List.append_assoc]
    refine (reads_eat (starts_mark rfl _)).then ?_
    refine (hgap hblank (reads_qualifiedName hn hends _)).then ?_
    exact (reads_eat_of_ne (hclose.kind.trans_ne (by decide))).then (reads_pure.then reads_pure)
  | nillable hblank hn =>
    have hends : NameEnds ('?' :: ')' :: rest) := nameEnds_cons (by decide) _
    rw [List.cons_append, List.append_assoc, List.append_assoc]
    refine (reads_eat (starts_mark rfl _)).then ?_
    refine (hgap hblank (reads_qualifiedName hn hends _)).then ?_
    exact (reads_eat (starts_mark rfl _)).then (reads_pure.then reads_pure)

private theorem reads_kindTestName {ns ts : List Char} {name : Option QName}
    (hname : NameWritten ns name)
    (htype : TypeWritten ts) :
    Reads True kindTestName (ns ++ ts ++ ')' :: rest) name (')' :: rest) := by
  have hends : NameEnds (ts ++ ')' :: rest) := nameEnds_typeWritten htype
  rw [List.append_assoc]
  cases hname with
  | omitted =>
    have hne {kind : TokenKind} (hkind : kind ∉ [.rightParen, .comma]) :
        nextKind (ts ++ ')' :: rest) ≠ kind := fun heq => hkind (heq ▸ kind_typeWritten htype)
    refine (reads_eat_of_ne (hne (by decide))).then ?_
    refine (reads_isAt .name).then ?_
    rw [beq_false_of_ne (hne (by decide))]
    exact reads_pure.then (reads_typeWritten htype none)
  | star => exact (reads_eat (starts_mark rfl _)).then (reads_pure.then (reads_typeWritten htype none))
  | @name n hn =>
    have hkind := nextKind_render hn hends
    refine (reads_eat_of_ne (hkind.trans_ne (by decide))).then ?_
    refine (reads_isAt .name).then ?_
    rw [hkind]
    exact ((reads_qualifiedName hn hends _).map some).then (reads_typeWritten htype (some n))

private theorem reads_kindTestTarget_none :
    Reads True kindTestTarget (')' :: rest) none (')' :: rest) := by
  refine (reads_isAt .name).then ?_
  exact (reads_isAt .string).then reads_pure

private theorem reads_kindTestTarget_some {target : String} (h : IsName target.toList) :
    Reads True kindTestTarget (target.toList ++ ')' :: rest) (some target) (')' :: rest) := by
  have hstarts := h.starts (breaks_cons (c := ')') (by decide) rest)
  refine (reads_isAt .name).then ?_
  rw [hstarts.kind]
  refine reads_advance fun t _ ht => ?_
  rw [hstarts.text, String.ofList_toList] at ht
  rw [hstarts.rest, ht]
  exact reads_pure

private theorem reads_kindTestTarget_quoted {q : Char} (hq : q = '\x22' ∨ q = '\x27') (target : String) :
    Reads True kindTestTarget (Text.quote q target.toList ++ ')' :: rest) (some target)
      (')' :: rest) := by
  have hend : (')' :: rest).head? ≠ some q := by rcases hq with rfl | rfl <;> simp
  have hsize : q.utf8Size = 1 := by rcases hq with rfl | rfl <;> decide
  have hstarts := starts_quote hq target.toList hend
  refine (reads_isAt .name).then ?_
  rw [hstarts.kind]
  refine (reads_isAt .string).then ?_
  rw [hstarts.kind]
  refine reads_advance fun t _ ht => ?_
  rw [hstarts.text] at ht
  rw [hstarts.rest, ht, String.toList_ofList, Text.unquote_quote hsize, String.ofList_toList]
  exact reads_pure

/-- A node test is told by its word and the parenthesis behind it. -/
theorem reads_isAtKindTest (h : Starts cs .name text rest) :
    Reads True isAtKindTest cs
      (nextKind rest == .leftParen && (KindTest.ofKeyword? text).isSome) cs := by
  refine reads_current fun t hkind ht => reads_following.then ?_
  rw [hkind, ht, h.kind, h.text, h.rest]
  exact reads_pure

/-- A kind test is told by its keyword and the parenthesis behind it. -/
theorem reads_isAtKindTest_true {n : Nat} {test : KindTest} (h : test.Written n cs) (rest : List Char) :
    Reads True isAtKindTest (test.keyword.toList ++ '(' :: (cs ++ ')' :: rest)) true
      (test.keyword.toList ++ '(' :: (cs ++ ')' :: rest)) := by
  have hread := reads_isAtKindTest (starts_keyword test (cs ++ ')' :: rest))
  have hkeyword : (KindTest.ofKeyword? test.keyword).isSome = true := by cases test <;> rfl
  rwa [(starts_leftParen (h.head_ne rest)).kind, hkeyword] at hread

/-- A kind test is read up to its parenthesis. -/
theorem reads_kindTest {n levels : Nat} {test : KindTest} (h : test.Written n cs)
    (hle : n ≤ levels) (rest : List Char) :
    Reads True (kindTest levels) (test.keyword.toList ++ '(' :: (cs ++ ')' :: rest)) test rest := by
  -- On how deep the test is nested: only a test for documents has another one in its parentheses.
  induction n using Nat.strongRecOn generalizing levels test cs rest with
  | _ n ih =>
  have hkeyword := starts_keyword test (cs ++ ')' :: rest)
  have hhead := h.head_ne rest
  unfold kindTest
  refine reads_advance fun t _ ht => ?_
  rw [hkeyword.text] at ht
  rw [hkeyword.rest]
  refine reads_advance fun _ _ _ => ?_
  rw [(starts_leftParen hhead).rest, ht]
  cases h with
  | bare h =>
    cases test with
    | anyNode | text | comment => exact reads_pure.then (reads_close _)
    | document =>
      exact (reads_isAt .name).then (reads_following.then (reads_pure.then (reads_close _)))
    | processingInstruction target =>
      obtain rfl := KindTest.processingInstruction.inj (Option.some.inj h)
      exact (reads_kindTestTarget_none.map _).then (reads_close _)
    | element name =>
      obtain rfl := KindTest.element.inj (Option.some.inj h)
      exact ((reads_kindTestName .omitted .omitted).map _).then (reads_close _)
    | «attribute» name =>
      obtain rfl := KindTest.attribute.inj (Option.some.inj h)
      exact ((reads_kindTestName .omitted .omitted).map _).then (reads_close _)
  | target h =>
    exact ((reads_kindTestTarget_some (isName_of_isSimpleName h)).map _).then (reads_close _)
  | quoted hq target => exact ((reads_kindTestTarget_quoted hq target).map _).then (reads_close _)
  | @document m cs inner h =>
    obtain ⟨levels, rfl⟩ : ∃ k, levels = k + 1 := ⟨levels - 1, by omega⟩
    have hinner := ih m (Nat.lt_succ_self m) h (Nat.le_of_succ_le_succ hle) (')' :: rest)
    have hstarts := starts_keyword inner (cs ++ ')' :: ')' :: rest)
    have hopen := starts_leftParen (h.head_ne (')' :: rest))
    rw [List.append_assoc, List.cons_append, List.append_assoc, List.singleton_append]
    refine (reads_isAt .name).then (reads_following.then ?_)
    rw [hstarts.kind, hstarts.rest, hopen.kind]
    exact hinner.nested.then (reads_pure.then (reads_close _))
  | element hname htype => exact ((reads_kindTestName hname htype).map _).then (reads_close _)
  | «attribute» hname htype => exact ((reads_kindTestName hname htype).map _).then (reads_close _)

end TreeQuery.Parser
