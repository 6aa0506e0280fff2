import TreeQuery.Proofs.Expr.Tidy
import TreeQuery.Proofs.Parser.Operands

/-!
# Reading groups and lists

What stands between brackets is read from the operands in it: groups, sequences and arguments. An
expression is `Legible` if its text is read back wherever it may stand.
-/

namespace TreeQuery

open TreeQuery.Parser

/-! ### Levels and members -/

private theorem Literal.one_le_nesting (value : Literal) : 1 ≤ value.nesting := by
  cases value with
  | double x =>
    simp only [nesting]
    split <;> decide
  | integer _ | decimal _ | string _ => exact Nat.le_refl 1

namespace Expr

private theorem nesting_le_operandNesting (e : Expr) (n : Nat) : n ≤ e.operandNesting n := by
  unfold operandNesting
  split
  · exact Nat.le_succ n
  · exact Nat.le_refl n

/-- Every text needs a level of its own. -/
theorem one_le_nesting (e : Expr) (outer : Nat) : 1 ≤ e.nesting outer := by
  induction e using Expr.induction generalizing outer with
  | h e ih =>
  cases e with
  | literal value =>
    have hvalue := value.one_le_nesting
    simp only [nesting]
    omega
  | rootPath relative =>
    simp only [nesting]
    exact Nat.le_trans (ih relative (by simp [children]) 1) (nesting_le_operandNesting _ _)
  | path left right =>
    simp only [nesting]
    exact Nat.le_trans (ih left (by simp [children]) outer)
      (Nat.le_trans (nesting_le_operandNesting _ _) (Nat.le_max_left _ _))
  | _ =>
    simp only [nesting]
    omega

/-- Every operand takes a level. -/
theorem one_le_levels (e : Expr) : 1 ≤ e.levels :=
  Nat.le_trans (e.one_le_nesting 0) (nesting_le_operandNesting _ _)

/-- Behind a front there is a path. -/
theorem isPath_rereadAt (e : Expr) {front : Front} (h : front ≠ .alone) : (e.rereadAt front).IsPath := by
  induction e using Expr.induction generalizing front with
  | h e ih =>
  have hput (e : Expr) : (front.put e).IsPath := by
    cases front with
    | alone => exact absurd rfl h
    | root | after _ => exact trivial
  cases e with
  | rootPath relative => exact ih relative (by simp [children]) (by simp)
  | path left right => exact ih right (by simp [children]) (by simp)
  | _ => exact hput _

private theorem isPath_reread_rootPath (e : Expr) : (rootPath e).reread.IsPath := isPath_rereadAt e nofun

private theorem isPath_reread_path (l r : Expr) : (path l r).reread.IsPath := isPath_rereadAt r nofun

private theorem IsPath.not_isSequence {e : Expr} (h : e.IsPath) : ¬ e.IsSequence := by
  cases e <;> first | exact id | contradiction

private theorem IsPath.not_isChain {e : Expr} (h : e.IsPath) : ¬ e.IsChain := by
  cases e <;> first | exact id | contradiction

private theorem not_isSequence_literal (value : Literal) : ¬ value.reread.IsSequence := by
  cases value with
  | double x =>
    simp only [Literal.reread]
    split <;> exact id
  | integer _ | decimal _ | string _ => exact id

/-- Only sequences are reread as sequences. -/
theorem not_isSequence_reread {e : Expr} (h : ¬ e.IsSequence) : ¬ e.reread.IsSequence := by
  cases e with
  | sequence _ => exact absurd trivial h
  | literal value => exact not_isSequence_literal value
  | rootPath relative => exact (isPath_reread_rootPath relative).not_isSequence
  | path left right => exact (isPath_reread_path left right).not_isSequence
  | _ => exact id

/-- Only chains are reread as chains. -/
theorem not_isChain_reread {e : Expr} (h : ¬ e.IsChain) : ¬ e.reread.IsChain := by
  cases e with
  | chain _ _ => exact absurd trivial h
  | literal value =>
    cases value with
    | double x =>
      simp only [reread, rereadAt, Literal.reread]
      split <;> exact id
    | integer _ | decimal _ | string _ => exact id
  | rootPath relative => exact (isPath_reread_rootPath relative).not_isChain
  | path left right => exact (isPath_reread_path left right).not_isChain
  | _ => exact id

private theorem members_of_not_isSequence {e : Expr} (h : ¬ e.IsSequence) : e.members = [e] := by
  cases e with
  | sequence _ => exact absurd trivial h
  | _ => rfl

/-- A sequence of one expression, which is no sequence itself, is the expression. -/
theorem ofMembers_singleton {e : Expr} (h : ¬ e.IsSequence) : ofMembers [e] = e := by
  rw [ofMembers, List.flatMap_singleton, members_of_not_isSequence h]

private theorem flatMap_members {es : List Expr} (h : ∀ e ∈ es, ¬ e.IsSequence) : es.flatMap members =
    es := by
  induction es with
  | nil => rfl
  | cons e es ih =>
    rw [List.forall_mem_cons] at h
    rw [List.flatMap_cons, members_of_not_isSequence h.1, ih h.2, List.singleton_append]

/-- Nothing is spliced where there are no sequences. -/
theorem ofMembers_eq {es : List Expr} (h : ∀ e ∈ es, ¬ e.IsSequence) (hlength : es.length ≠ 1) :
    ofMembers es = .sequence es := by
  rw [ofMembers, flatMap_members h]
  split
  · exact absurd rfl hlength
  · rfl

/-! ### Legible expressions -/

/-- The text of an expression is read back: as an operand, and by itself or as a group where nothing
but a bracket or the end follows. -/
structure Legible (e : Expr) : Prop where
  begins : ∀ rest, NameEnds rest → Begins (e.text ++ rest)
  opens : e.Opens
  alone : ∀ levels rest, NameEnds rest →
    nextKind rest ∈ [.rightParen, .rightBracket, .rightBrace, .eof] →
      Reads (e.nesting 0 ≤ levels) (commaExpr (operandAt levels)) (e.render.toList ++ rest) e.reread rest
  beginsAlone : ∀ rest, NameEnds rest → Begins (e.render.toList ++ rest)
  group : ∀ levels rest,
    Reads (e.nesting 0 ≤ levels) (Parser.group (operandAt levels))
      ('(' :: (e.render.toList ++ ')' :: rest)) e.reread rest

end Expr

end TreeQuery

namespace TreeQuery.Parser

variable {fits : Prop} {levels : Nat} {least : Precedence} {e : Expr} {cs rest : List Char}

/-- A closing parenthesis ends a name. -/
theorem nameEnds_rightParen (rest : List Char) : NameEnds (')' :: rest) :=
  nameEnds_cons (by decide) rest

/-- An operand in front of what stops it. -/
theorem reads_opens (h : e.Opens) (hadmits : e.Admits least rest)
    (hstops : Stops least rest) (levels : Nat) :
    Reads (e.levels ≤ levels) (operandAt levels least) (e.text ++ rest) e.reread rest := by
  cases levels with
  | zero => exact reads_operandAt_zero (Nat.not_le_of_lt e.one_le_levels)
  | succ levels =>
    exact (h levels least rest hadmits True e.reread rest (reads_climb_stop hstops)).congr
      (and_iff_left trivial)

/-- In front of a comma or a closing bracket every expression may stand. -/
theorem admits_of_kind (e : Expr) (hlt : least.rank < Precedence.path.rank) (hrest : NameEnds rest)
    (hkind : nextKind rest ∈ [.rightParen, .rightBracket, .rightBrace, .comma, .colon, .eof]) :
    e.Admits least rest :=
  ⟨hrest, Nat.lt_trans hlt (by decide), fun _ => ⟨hlt, stops_of_kind hkind⟩,
    fun _ => admitsRoot_of_kind hkind⟩

/-- An operand is read back on its own where no operator follows. -/
theorem reads_single (h : e.Opens) (hrest : NameEnds rest)
    (hkind : nextKind rest ∈ [.rightParen, .rightBracket, .rightBrace, .comma, .colon, .eof])
    (levels : Nat) :
    Reads (e.levels ≤ levels) (single (operandAt levels)) (e.text ++ rest) e.reread rest :=
  reads_opens h (admits_of_kind e (by decide) hrest hkind) (stops_of_kind hkind) levels

/-! ### Groups -/

/-- Without a comma behind it a single expression is all there is. -/
theorem reads_commaExpr_single (h : Reads fits (single (operandAt levels)) cs e rest)
    (hkind : nextKind rest ≠ .comma) : Reads fits (commaExpr (operandAt levels)) cs e rest := by
  refine h.andThen (fun _ => ?_) ((reads_isAt .comma).then ?_)
  · exact (persists_isAt _).bind fun _ =>
      .ite ((((persists_operandAt levels) _).many _).bind fun _ => persists_pure _) (persists_pure _)
  · rw [beq_false_of_ne hkind]
    exact reads_pure

/-- A group with one expression in it, which is found whether or not it is taken for a list. -/
theorem reads_group_single (hbegins : Begins cs) (he : ¬ e.IsSequence ∨ e = .sequence [])
    (h : Reads fits (single (operandAt levels)) cs e (')' :: rest)) :
    Reads fits (group (operandAt levels)) ('(' :: cs) e rest := by
  have hopen := starts_leftParen hbegins.head
  have hclose := starts_mark (c := ')') rfl rest
  have hsingleton : Expr.ofMembers [e] = e := by
    rcases he with he | rfl
    · exact Expr.ofMembers_singleton he
    · rfl
  have hlist : Reads fits (Expr.ofMembers <$> commaList (single (operandAt levels))) cs e
      (')' :: rest) := by
    have hmany : Reads True (many .comma (single (operandAt levels))) (')' :: rest) [] (')' :: rest) :=
      reads_many_nil _ _ (hclose.kind.trans_ne (by decide))
    have hread : Reads fits (commaList (single (operandAt levels))) cs [e] (')' :: rest) :=
      h.andThen (fun _ => ((persists_operandAt levels _).many _).bind fun _ => persists_pure _)
        (hmany.then reads_pure)
    have hmap := hread.map Expr.ofMembers
    rwa [hsingleton] at hmap
  refine (reads_isAtList hopen).then ?_
  refine reads_advance fun _ _ _ => ?_
  rw [hopen.rest]
  refine (reads_eat_of_ne (hbegins.ne (by decide))).then ?_
  cases hasOwnComma cs with
  | true => exact hlist.andThen (fun _ => (persists_expect _ _).bind fun _ => persists_pure _) (reads_close _)
  | false => exact h.andThen (fun _ => (persists_expect _ _).bind fun _ => persists_pure _) (reads_close _)

/-- A group with a comma of its own. -/
theorem reads_group_list {es : List Expr} (hbegins : Begins cs) (hcomma : hasOwnComma cs = true)
    (h : Reads fits (commaList (single (operandAt levels))) cs es (')' :: rest)) :
    Reads fits (group (operandAt levels)) ('(' :: cs) (Expr.ofMembers es) rest := by
  have hopen := starts_leftParen hbegins.head
  refine (reads_isAtList hopen).then ?_
  refine reads_advance fun _ _ _ => ?_
  rw [hopen.rest, hcomma]
  refine (reads_eat_of_ne (hbegins.ne (by decide))).then ?_
  exact (h.map _).andThen (fun _ => (persists_expect _ _).bind fun _ => persists_pure _)
    (reads_close _)

/-- A group with nothing in it. -/
theorem reads_group_empty : Reads True (group (operandAt levels)) ('(' :: ')' :: rest) .empty rest := by
  have hopen : Starts ('(' :: ')' :: rest) .leftParen "(" (')' :: rest) := starts_leftParen (by simp)
  refine (reads_isAtList hopen).then ?_
  refine reads_advance fun _ _ _ => ?_
  rw [hopen.rest]
  exact (reads_eat (starts_mark rfl rest)).then reads_pure

/-- An operand in parentheses is what the group is. -/
theorem reads_primary_group {operand : OperandParser} (hhead : cs.head? ≠ some ':')
    (h : Reads fits (group operand) ('(' :: cs) e rest) :
    Reads fits (primary operand levels) ('(' :: cs) e rest := by
  refine reads_current fun t hkind _ => ?_
  rw [hkind, (starts_leftParen hhead).kind]
  exact h

/-! ### From operands to legible expressions -/

/-- What comes first is the whole operand. -/
theorem opens_of_primary (h : ∀ levels rest, NameEnds rest →
    Reads (e.levels ≤ levels + 1) (primary (operandAt levels) levels) (e.text ++ rest) e.reread rest) :
    e.Opens :=
  fun levels _ rest hadmits _ _ _ hclimb => reads_operandAt (h levels rest hadmits.ends) hclimb

/-- Blanks and the marks that may follow a name end it. -/
theorem nameEnds_of_kind {c : Char} (h : c ∈ [' ', ')', ']', ',', '[', '?', '/', '#', '(']) (cs : List Char) :
    NameEnds (c :: cs) := by
  have hall : ∀ c ∈ [' ', ')', ']', ',', '[', '?', '/', '#', '('],
      isNameChar c = false ∧ c ≠ '.' ∧ c ≠ '\x22' ∧ c ≠ ':' := by decide
  exact nameEnds_cons (hall c h) cs

/-- An expression whose text has no parentheses more among commas than it has alone. -/
theorem legible_of_opens (h : ¬ e.IsSequence ∨ e = .sequence [])
    (hbegins : ∀ rest, NameEnds rest → Begins (e.text ++ rest)) (hopens : e.Opens) : e.Legible := by
  have htext : e.text = e.render.toList := by
    rcases h with h | rfl
    · exact Expr.text_eq_render h
    · rfl
  have hlevels : e.levels = e.nesting 0 := by
    rcases h with h | rfl
    · exact Expr.levels_of_not_sequence h
    · rfl
  have hreread : ¬ e.reread.IsSequence ∨ e.reread = .sequence [] := by
    rcases h with h | rfl
    · exact Or.inl (Expr.not_isSequence_reread h)
    · exact Or.inr rfl
  refine ⟨hbegins, hopens, fun levels rest hrest hkind => ?_, htext ▸ hbegins, fun levels rest => ?_⟩
  · have hends : ∀ k ∈ [TokenKind.rightParen, .rightBracket, .rightBrace, .eof],
        k ∈ [TokenKind.rightParen, .rightBracket, .rightBrace, .comma, .colon, .eof] ∧ k ≠ .comma := by
      decide
    rw [← htext, ← hlevels]
    exact reads_commaExpr_single (reads_single hopens hrest (hends _ hkind).1 levels) (hends _ hkind).2
  · have hclose := starts_mark (c := ')') rfl rest
    rw [← htext, ← hlevels]
    refine reads_group_single (hbegins _ (nameEnds_rightParen rest)) hreread ?_
    exact reads_single hopens (nameEnds_rightParen rest) (by rw [hclose.kind]; decide) levels

/-- Operands in front of what follows them among commas. -/
theorem reads_element {after : List Char} (h : e.Legible) (hends : rest = after ∨ rest.head? = some ',')
    (hafter : NameEnds after)
    (hkind : nextKind after ∈ [.rightParen, .rightBracket, .rightBrace, .eof]) (levels : Nat) :
    Reads (e.levels ≤ levels) (single (operandAt levels)) (e.text ++ rest) e.reread rest := by
  have hclosers : ∀ k ∈ [TokenKind.rightParen, .rightBracket, .rightBrace, .eof],
      k ∈ [TokenKind.rightParen, .rightBracket, .rightBrace, .comma, .colon, .eof] := by decide
  rcases hends with rfl | hhead
  · exact reads_single h.opens hafter (hclosers _ hkind) levels
  · obtain ⟨cs, rfl⟩ : ∃ cs, rest = ',' :: cs := by
      cases rest with
      | nil => contradiction
      | cons c cs => exact ⟨cs, by rw [Option.some.inj hhead]⟩
    have hcomma := starts_mark (c := ',') rfl cs
    exact reads_single h.opens (nameEnds_of_kind (by simp) cs) (by rw [hcomma.kind]; decide) levels

/-- Expressions with commas between them are read back one after the other. -/
theorem reads_elements {es : List Expr} {after : List Char} (h : ∀ m ∈ e :: es, m.Legible)
    (hafter : NameEnds after)
    (hkind : nextKind after ∈ [.rightParen, .rightBracket, .rightBrace, .eof]) (levels : Nat) :
    Reads (∀ m ∈ e :: es, m.levels ≤ levels) (commaList (single (operandAt levels)))
      (e.text ++ (afterCommas Expr.text es ++ after)) ((e :: es).map Expr.reread) after := by
  have hcomma : nextKind after ≠ .comma := by
    intro heq
    rw [heq] at hkind
    contradiction
  rw [← List.append_assoc]
  exact reads_commaList (persists_operandAt levels _) hcomma fun m hm rest hends =>
    reads_element (h m hm) (hends.imp_left And.left) hafter hkind levels

/-- Two expressions or more with commas between them. -/
theorem reads_commaExpr_list {e' : Expr} {es : List Expr} {after : List Char}
    (h : ∀ m ∈ e :: e' :: es, m.Legible) (hafter : NameEnds after)
    (hkind : nextKind after ∈ [.rightParen, .rightBracket, .rightBrace, .eof]) (levels : Nat) :
    Reads (∀ m ∈ e :: e' :: es, m.levels ≤ levels) (commaExpr (operandAt levels))
      (e.text ++ (afterCommas Expr.text (e' :: es) ++ after))
      (Expr.ofMembers ((e :: e' :: es).map Expr.reread)) after := by
  have hcomma : nextKind after ≠ .comma := by
    intro heq
    rw [heq] at hkind
    contradiction
  have hpersists : Persists (many .comma (single (operandAt levels))) :=
    (persists_operandAt levels _).many _
  rw [List.forall_mem_cons] at h
  have hfirst := reads_element h.1
    (Or.inr (rfl : (afterCommas Expr.text (e' :: es) ++ after).head? = some ',')) hafter hkind levels
  have hmany := reads_many_comma (persists_operandAt levels _) hcomma fun m hm rest hends =>
    reads_element (h.2 m hm) (hends.imp_left And.left) hafter hkind levels
  have hmark : nextKind (afterCommas Expr.text (e' :: es) ++ after) = .comma :=
    (starts_mark (c := ',') rfl _).kind
  refine (hfirst.bind (fun _ => ?_) ((reads_isAt .comma).then ?_)).congr
    (List.forall_mem_cons (p := fun m : Expr => m.levels ≤ levels)).symm
  · exact (persists_isAt _).bind fun _ =>
      .ite (hpersists.bind fun _ => persists_pure _) (persists_pure _)
  · rw [hmark]
    exact Reads.andThen hmany (fun _ => persists_pure _) reads_pure

/-- In front of another element. -/
theorem nameEnds_afterCommas {ι : Type} (text : ι → List Char) (is : List ι) (h : NameEnds rest) :
    NameEnds (afterCommas text is ++ rest) := by
  cases is with
  | nil => exact h
  | cons _ _ => exact nameEnds_of_kind (by simp) _

/-- A parenthesis that opens no comment begins an operand. -/
theorem begins_parenthesis (hhead : cs.head? ≠ some ':') : Begins ('(' :: cs) :=
  begins_of_starts (starts_leftParen hhead) (by simp) (by decide)

private theorem legible_empty : (Expr.sequence []).Legible := by
  have hhead (rest : List Char) : (')' :: rest).head? ≠ some ':' := by simp
  refine legible_of_opens (Or.inr rfl) (fun rest _ => begins_parenthesis (hhead rest))
    (opens_of_primary fun levels rest _ => ?_)
  have hfits : (Expr.sequence []).levels ≤ levels + 1 := Nat.le_add_left 1 levels
  exact (reads_primary_group (hhead rest) reads_group_empty).congr (iff_of_true trivial hfits)

/-- A sequence is read with parentheses as a group, and alone as elements among commas. -/
theorem legible_sequence {es : List Expr} (hformed : (Expr.sequence es).Formed)
    (h : ∀ m ∈ es, m.Legible) (htidy : ∀ m ∈ es, m.Tidy) : (Expr.sequence es).Legible := by
  obtain ⟨hlength, hmembers⟩ := hformed
  cases es with
  | nil => exact legible_empty
  | cons e es =>
  have hreread : Expr.ofMembers ((e :: es).map Expr.reread) = (Expr.sequence (e :: es)).reread := by
    rw [Expr.ofMembers_eq (fun m hm => ?_) (by rwa [List.length_map])]
    · rw [Expr.reread, Expr.rereadAt, Expr.rereadAll_eq]
      rfl
    · obtain ⟨m, hmember, rfl⟩ := List.mem_map.mp hm
      exact Expr.not_isSequence_reread (hmembers m hmember)
  have hlevels (levels : Nat) : (∀ m ∈ e :: es, m.levels ≤ levels) ↔
      (Expr.sequence (e :: es)).nesting 0 ≤ levels := by
    have hpos := e.one_le_levels
    have hfirst : e.levels ≤ Expr.nestingAll (e :: es) := Nat.le_max_left _ _
    rw [← Expr.nestingAll_le]
    simp only [Expr.nesting]
    omega
  have halone (rest : List Char) : (Expr.sequence (e :: es)).render.toList ++ rest =
      e.text ++ (afterCommas Expr.text es ++ rest) := by
    rw [← List.append_assoc, ← toList_renderOperands]
    rfl
  have hbegins (rest : List Char) (hrest : NameEnds rest) :
      Begins (e.text ++ (afterCommas Expr.text es ++ rest)) :=
    (h e (by simp)).begins _ (nameEnds_afterCommas _ _ hrest)
  have hcomma (rest : List Char) :
      hasOwnComma (e.text ++ (afterCommas Expr.text es ++ rest)) = true := by
    obtain ⟨e', es', rfl⟩ : ∃ e' es', es = e' :: es' :=
      List.exists_cons_of_ne_nil fun hnil => hlength (by rw [hnil]; rfl)
    have htext : afterCommas Expr.text (e' :: es') ++ rest =
        ',' :: ' ' :: (e'.text ++ (afterCommas Expr.text es' ++ rest)) := by
      simp [afterCommas]
    rw [hasOwnComma, htext, (htidy e (by simp)).closes _ _ (breaks_cons (by decide) _),
      commaAhead_cons (Or.inl (by decide))]
    rfl
  have hgroup (levels : Nat) (rest : List Char) :
      Reads ((Expr.sequence (e :: es)).nesting 0 ≤ levels) (group (operandAt levels))
        ('(' :: (e.text ++ (afterCommas Expr.text es ++ ')' :: rest)))
        (Expr.sequence (e :: es)).reread rest := by
    have hclose := starts_mark (c := ')') rfl rest
    rw [← hreread]
    refine (reads_group_list (hbegins _ (nameEnds_rightParen rest)) (hcomma _) ?_).congr
      (hlevels levels)
    exact reads_elements h (nameEnds_rightParen rest) (by rw [hclose.kind]; decide) levels
  refine ⟨fun rest _ => ?_, ?_, fun levels rest hrest hkind => ?_, fun rest hrest => ?_,
    fun levels rest => ?_⟩
  · rw [Expr.text_sequence]
    exact begins_parenthesis (hbegins _ (nameEnds_rightParen rest)).head
  · refine opens_of_primary fun levels rest _ => ?_
    rw [Expr.text_sequence]
    refine Reads.congr ?_ (show (Expr.sequence (e :: es)).nesting 0 ≤ levels ↔ _ from
      Nat.add_le_add_iff_right.symm)
    exact reads_primary_group (hbegins _ (nameEnds_rightParen rest)).head (hgroup levels rest)
  · obtain ⟨e', es', rfl⟩ : ∃ e' es', es = e' :: es' :=
      List.exists_cons_of_ne_nil fun hnil => hlength (by rw [hnil]; rfl)
    rw [halone, ← hreread]
    exact (reads_commaExpr_list h hrest hkind levels).congr (hlevels levels)
  · rw [halone]
    exact hbegins rest hrest
  · rw [halone]
    exact hgroup levels rest

end TreeQuery.Parser
