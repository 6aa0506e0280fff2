import TreeQuery.Proofs.Parser.Groups
import TreeQuery.Proofs.Token.Digits

/-!
# Reading arguments, keys and chains

Arguments and lookup keys are read back, and links are climbed on one behind another. So an expression
with links behind it is read back, if it is no chain itself.
-/

namespace TreeQuery.Parser

variable {fits : Prop} {levels : Nat} {least : Precedence} {e e' left : Expr} {cs rest after : List Char}

/-! ### Arguments -/

private theorem reads_argument {a : Argument} (h : ∀ c ∈ a.children, c.Legible)
    (hends : rest = ')' :: after ∨ rest.head? = some ',') (levels : Nat) :
    Reads (a.levels ≤ levels) (argument (operandAt levels)) (a.text ++ rest) a.reread rest := by
  have hclose := starts_mark (c := ')') rfl after
  cases a with
  | value e =>
    have he := h e (List.mem_singleton.mpr rfl)
    have hnames : NameEnds rest := by
      rcases hends with rfl | hhead
      · exact nameEnds_rightParen after
      · cases rest with
        | nil => contradiction
        | cons c cs =>
          rw [Option.some.inj hhead]
          exact nameEnds_of_kind (by simp) cs
    have hbegins := he.begins rest hnames
    have hmark : (nextKind (e.text ++ rest) == .question &&
        (nextKind (afterToken (e.text ++ rest)) == .comma ||
          nextKind (afterToken (e.text ++ rest)) == .rightParen)) = false := by
      by_cases hquestion : nextKind (e.text ++ rest) = .question
      · obtain ⟨hcomma, hparen⟩ := hbegins.placeholder hquestion
        rw [beq_false_of_ne hcomma, beq_false_of_ne hparen, Bool.or_false, Bool.and_false]
      · rw [beq_false_of_ne hquestion, Bool.false_and]
    refine reads_following.then ((reads_isAt .question).then ?_)
    change Reads _ _ (e.text ++ rest) _ _
    rw [show (Argument.value e).text = e.text from rfl, hmark]
    exact (reads_element he hends (nameEnds_rightParen after) (by rw [hclose.kind]; decide) levels).andThen
      (fun _ => persists_pure _) reads_pure
  | placeholder =>
    have hquestion := starts_mark (c := '?') rfl rest
    have hnext : nextKind rest = .comma ∨ nextKind rest = .rightParen := by
      rcases hends with rfl | hhead
      · exact Or.inr hclose.kind
      · cases rest with
        | nil => contradiction
        | cons c cs =>
          rw [Option.some.inj hhead]
          exact Or.inl (starts_mark (c := ',') rfl cs).kind
    have hmark : (nextKind (afterToken ('?' :: rest)) == .comma ||
        nextKind (afterToken ('?' :: rest)) == .rightParen) = true := by
      rw [hquestion.rest]
      rcases hnext with h | h <;> rw [h] <;> rfl
    refine Reads.congr ?_ (iff_true_intro (Nat.zero_le levels)).symm
    refine reads_following.then ((reads_isAt .question).then ?_)
    change Reads _ _ ('?' :: rest) _ _
    rw [show Argument.placeholder.text ++ rest = '?' :: rest from rfl, hquestion.kind, hmark]
    refine reads_advance fun _ _ _ => ?_
    rw [hquestion.rest]
    exact reads_pure

/-- A question mark begins an operand, unless it stands for an argument. -/
theorem begins_question (h : nextKind cs ≠ .comma ∧ nextKind cs ≠ .rightParen) : Begins ('?' :: cs) := by
  have hquestion := starts_mark (c := '?') rfl cs
  refine ⟨by simp, ?_, fun _ => ?_⟩
  · rw [hquestion.kind]
    decide
  · rwa [hquestion.rest]

/-- An argument is not taken for the end of the arguments, nor for a comment. -/
theorem begins_argument {a : Argument} (h : ∀ c ∈ a.children, c.Legible) (hrest : NameEnds rest) :
    nextKind (a.text ++ rest) ≠ .rightParen ∧ (a.text ++ rest).head? ≠ some ':' := by
  cases a with
  | value e =>
    have hbegins := (h e (List.mem_singleton.mpr rfl)).begins rest hrest
    exact ⟨hbegins.ne (by decide), hbegins.head⟩
  | placeholder =>
    have hquestion := starts_mark (c := '?') rfl rest
    exact ⟨hquestion.kind.trans_ne (by decide), by simp [Argument.text]⟩

/-- Arguments do not start with a colon, so the parenthesis in front of them opens no comment. -/
theorem head_allText {args : List Argument} (h : ∀ c ∈ args.flatMap Argument.children, c.Legible) :
    (Argument.allText args ++ ')' :: rest).head? ≠ some ':' := by
  cases args with
  | nil => simp [Argument.allText]
  | cons a as =>
    rw [Argument.allText, List.append_assoc]
    exact (begins_argument (fun c hc => h c (List.mem_append_left _ hc))
      (nameEnds_afterCommas _ _ (nameEnds_rightParen rest))).2

/-- Arguments are read back up to the parenthesis behind them. -/
theorem reads_arguments {args : List Argument}
    (h : ∀ c ∈ args.flatMap Argument.children, c.Legible) (levels : Nat) :
    Reads (Argument.nestingAll args ≤ levels) (arguments (operandAt levels))
      (Argument.allText args ++ ')' :: rest) (args.map Argument.reread) rest := by
  have hclose := starts_mark (c := ')') rfl rest
  cases args with
  | nil =>
    refine Reads.congr ?_ (iff_true_intro (Nat.zero_le levels)).symm
    exact (reads_eat hclose).then reads_pure
  | cons a as =>
    have hinside : ∀ b ∈ a :: as, ∀ c ∈ b.children, c.Legible := fun b hb c hc =>
      h c (List.mem_flatMap.mpr ⟨b, hb, hc⟩)
    have hfirst := begins_argument (hinside a List.mem_cons_self)
      (nameEnds_afterCommas Argument.text as (nameEnds_rightParen rest))
    have hlist : Reads (∀ b ∈ a :: as, b.levels ≤ levels) (commaList (argument (operandAt levels)))
        (a.text ++ afterCommas Argument.text as ++ ')' :: rest) ((a :: as).map Argument.reread)
        (')' :: rest) :=
      reads_commaList (persists_argument (persists_operandAt levels))
        (hclose.kind.trans_ne (by decide)) fun b hb _ hends =>
          reads_argument (hinside b hb) (hends.imp_left And.left) levels
    rw [List.append_assoc] at hlist
    rw [Argument.allText, List.append_assoc]
    refine Reads.congr ?_ Argument.nestingAll_le.symm
    refine (reads_eat_of_ne hfirst.1).then ?_
    exact hlist.andThen (fun _ => (persists_expect _ _).bind fun _ => persists_pure _) (reads_close _)

/-! ### Keys -/

/-- The key of a lookup is read back. -/
theorem reads_lookupKey {key : LookupKey} (hformed : key.WellFormed)
    (h : ∀ c ∈ key.children, c.Legible) (hrest : NameEnds rest) (levels : Nat) :
    Reads (key.nesting ≤ levels) (lookupKey (operandAt levels)) (key.render.toList ++ rest) key.reread
      rest := by
  cases key with
  | name word =>
    have hword := starts_word hformed hrest.breaks
    refine Reads.congr ?_ (iff_true_intro (Nat.zero_le levels)).symm
    refine reads_current fun t hkind htext => ?_
    rw [LookupKey.render, hword.kind] at hkind
    rw [LookupKey.render, hword.text] at htext
    rw [hkind, htext]
    refine reads_advance fun _ _ _ => ?_
    rw [LookupKey.render, hword.rest]
    exact reads_pure
  | index i =>
    have hdigits := starts_renderInteger hformed hrest.breaks
    refine Reads.congr ?_ (iff_true_intro (Nat.zero_le levels)).symm
    refine reads_current fun t hkind htext => ?_
    rw [LookupKey.render, hdigits.kind] at hkind
    rw [LookupKey.render, hdigits.text] at htext
    rw [hkind, htext]
    refine reads_advance fun _ _ _ => ?_
    rw [LookupKey.render, hdigits.rest, read?_renderInteger hformed]
    exact reads_pure
  | computed e =>
    have he := h e (List.mem_singleton.mpr rfl)
    rw [LookupKey.render, Expr.toList_parenthesized]
    have hopen := starts_leftParen (he.beginsAlone _ (nameEnds_rightParen rest)).head
    refine reads_current fun t hkind _ => ?_
    rw [hkind, hopen.kind]
    exact (he.group levels rest).map LookupKey.computed
  | all =>
    have hstar := starts_mark (c := '*') rfl rest
    refine Reads.congr ?_ (iff_true_intro (Nat.zero_le levels)).symm
    refine reads_current fun t hkind _ => ?_
    change t.kind = nextKind ('*' :: rest) at hkind
    rw [hkind, hstar.kind]
    refine reads_advance fun _ _ _ => ?_
    change Reads _ _ (afterToken ('*' :: rest)) _ _
    rw [hstar.rest]
    exact reads_pure

/-! ### Links -/

private theorem nameEnds_link (l : Link) (cs : List Char) : NameEnds (l.text ++ cs) := by
  cases l with
  | predicate _ | call _ | lookup _ => exact nameEnds_of_kind (by simp) _

/-- Links end a name in front of them. -/
theorem nameEnds_links (ls : List Link) (hrest : NameEnds rest) :
    NameEnds (ls.flatMap Link.text ++ rest) := by
  cases ls with
  | nil => exact hrest
  | cons l ls =>
    rw [List.flatMap_cons, List.append_assoc]
    exact nameEnds_link l _

/-- A link is taken by what stands in front of it. -/
theorem reads_climb_link {l : Link} (hformed : l.WellFormed) (h : ∀ c ∈ l.children, c.Legible)
    (hlt : least.rank < Precedence.chain.rank) (hrest : NameEnds rest)
    (hclimb : Reads fits (climb (operandAt levels) levels least (left.link l.reread)) rest e' after) :
    Reads (l.levels ≤ levels ∧ fits) (climb (operandAt levels) levels least left) (l.text ++ rest)
      e' after := by
  cases l with
  | predicate e =>
    have he := h e (List.mem_singleton.mpr rfl)
    have hclose := starts_mark (c := ']') rfl rest
    have htext : (Link.predicate e).text ++ rest = '[' :: (e.render.toList ++ ']' :: rest) := by
      simp [Link.text]
    rw [htext]
    refine reads_climb (persists_operandAt levels) (starts_mark (c := '[') rfl _)
      (fun t hkind _ => by simp [Token.infixPrecedence?, hkind]) hlt (fun t hkind _ => ?_) hclimb
    have hnone : binaryOperator? t = none := by simp [binaryOperator?, symbolOperator?, hkind]
    rw [operatorRest, hnone, hkind]
    refine (he.alone levels (']' :: rest) (nameEnds_of_kind (by simp) rest)
      (by rw [hclose.kind]; decide)).andThen
      (fun _ => (persists_expect _ _).bind fun _ => persists_pure _) ?_
    exact (reads_expect hclose _).then reads_pure
  | call args =>
    have htext : (Link.call args).text ++ rest = '(' :: (Argument.allText args ++ ')' :: rest) := by
      simp [Link.text]
    rw [htext]
    refine reads_climb (persists_operandAt levels) (starts_leftParen (head_allText h))
      (fun t hkind _ => by simp [Token.infixPrecedence?, hkind]) hlt (fun t hkind _ => ?_) hclimb
    have hnone : binaryOperator? t = none := by simp [binaryOperator?, symbolOperator?, hkind]
    rw [operatorRest, hnone, hkind]
    exact (reads_arguments h levels).andThen (fun _ => persists_pure _) reads_pure
  | lookup key =>
    have htext : (Link.lookup key).text ++ rest = '?' :: (key.render.toList ++ rest) := by
      simp [Link.text]
    rw [htext]
    refine reads_climb (persists_operandAt levels) (starts_mark (c := '?') rfl _)
      (fun t hkind _ => by simp [Token.infixPrecedence?, hkind]) hlt (fun t hkind _ => ?_) hclimb
    have hnone : binaryOperator? t = none := by simp [binaryOperator?, symbolOperator?, hkind]
    rw [operatorRest, hnone, hkind]
    exact (reads_lookupKey hformed h hrest levels).andThen (fun _ => persists_pure _) reads_pure

/-- Links are taken one after another. -/
theorem reads_climb_links {ls : List Link} (hformed : ∀ l ∈ ls, l.WellFormed)
    (h : ∀ c ∈ ls.flatMap Link.children, c.Legible) (hlt : least.rank < Precedence.chain.rank)
    (hrest : NameEnds rest)
    (hclimb : Reads fits
      (climb (operandAt levels) levels least ((ls.map Link.reread).foldl Expr.link left)) rest e' after) :
    Reads (Link.nestingAll ls ≤ levels ∧ fits) (climb (operandAt levels) levels least left)
      (ls.flatMap Link.text ++ rest) e' after := by
  rw [Link.nestingAll_le]
  induction ls generalizing left with
  | nil => exact hclimb.congr (by simp)
  | cons l ls ih =>
    rw [List.forall_mem_cons] at hformed
    have hfirst : ∀ c ∈ l.children, c.Legible := fun c hc => h c (List.mem_append_left _ hc)
    have hlater := ih hformed.2 (fun c hc => h c (List.mem_append_right _ hc)) hclimb
    rw [List.flatMap_cons, List.append_assoc]
    refine (reads_climb_link hformed.1 hfirst hlt (nameEnds_links ls hrest) hlater).congr ?_
    rw [List.forall_mem_cons, and_assoc]

/-! ### Chains -/

private theorem foldl_link_chain (base : Expr) (ms ls : List Link) :
    ls.foldl Expr.link (.chain base ms) = .chain base (ms ++ ls) := by
  induction ls generalizing ms with
  | nil => rw [List.foldl_nil, List.append_nil]
  | cons l ls ih => rw [List.foldl_cons, Expr.link, ih, List.append_assoc, List.singleton_append]

/-- Links behind what is no chain make a chain. -/
theorem foldl_link {base : Expr} (h : ¬ base.IsChain) {ls : List Link} (hls : ls ≠ []) :
    ls.foldl Expr.link base = .chain base ls := by
  obtain ⟨l, ls, rfl⟩ := List.exists_cons_of_ne_nil hls
  have hlink : base.link l = .chain base [l] := by
    cases base with
    | chain _ _ => exact absurd trivial h
    | _ => rfl
  rw [List.foldl_cons, hlink, foldl_link_chain, List.singleton_append]

/-- In front of links a path stands in parentheses. -/
theorem front_of_isPath {base : Expr} (h : base.IsPath) :
    base.front = (parenthesized base.render).toList ∧
      base.baseNesting (base.nesting 0) = base.nesting 0 + 1 := by
  cases base with
  | root | rootPath _ | path _ _ | step _ _ _ => exact ⟨rfl, rfl⟩
  | _ => contradiction

/-- Any other expression stands there as it is. -/
theorem front_of_not_isPath {base : Expr} (h : ¬ base.IsPath) :
    base.front = base.text ∧ base.baseNesting (base.nesting 0) = base.levels := by
  cases base with
  | root | rootPath _ | path _ _ | step _ _ _ => exact absurd trivial h
  | _ => exact ⟨rfl, rfl⟩

private theorem begins_front {base : Expr} (h : base.Legible) (hrest : NameEnds rest) :
    Begins (base.front ++ rest) := by
  by_cases hpath : base.IsPath
  · rw [(front_of_isPath hpath).1, Expr.toList_parenthesized]
    exact begins_parenthesis (h.beginsAlone _ (nameEnds_rightParen rest)).head
  · rw [(front_of_not_isPath hpath).1]
    exact h.begins rest hrest

/-- What has links behind it is climbed on like any operand. -/
theorem reads_front {base : Expr} (h : base.Legible) (hlt : least.rank < Precedence.chain.rank)
    (hrest : NameEnds rest)
    (hclimb : Reads fits (climb (operandAt levels) levels least base.reread) rest e' after) :
    Reads (base.baseNesting (base.nesting 0) ≤ levels + 1 ∧ fits) (operandAt (levels + 1) least)
      (base.front ++ rest) e' after := by
  by_cases hpath : base.IsPath
  · obtain ⟨hfront, hnesting⟩ := front_of_isPath hpath
    rw [hfront, hnesting, Expr.toList_parenthesized, Nat.add_le_add_iff_right]
    exact reads_operandAt (reads_primary_group (h.beginsAlone _ (nameEnds_rightParen rest)).head
      (h.group levels rest)) hclimb
  · obtain ⟨hfront, hnesting⟩ := front_of_not_isPath hpath
    rw [hfront, hnesting]
    have hroot : base ≠ .root := by
      rintro rfl
      exact hpath trivial
    exact h.opens levels least rest
      ⟨hrest, hlt, fun hp => absurd hp hpath, fun hr => absurd hr hroot⟩ fits e' after hclimb

/-- An expression is read back with the links behind it. -/
theorem legible_chain {base : Expr} {ls : List Link} (hformed : (Expr.chain base ls).Formed)
    (hbase : base.Legible) (hlinks : ∀ c ∈ ls.flatMap Link.children, c.Legible) :
    (Expr.chain base ls).Legible := by
  obtain ⟨hchain, hne, hkeys⟩ := hformed
  have hreread : (Expr.chain base ls).reread = (ls.map Link.reread).foldl Expr.link base.reread := by
    rw [foldl_link (Expr.not_isChain_reread hchain) (fun hnil => hne (List.map_eq_nil_iff.mp hnil)),
      Expr.reread, Expr.rereadAt, Link.rereadAll_eq]
    rfl
  refine legible_of_opens (Or.inl id) (fun rest hrest => ?_) ?_
  · rw [Expr.text_chain]
    exact begins_front hbase (nameEnds_links ls hrest)
  · intro levels least rest hadmits fits e' after hclimb
    rw [hreread] at hclimb
    have hclimbs := reads_climb_links hkeys hlinks hadmits.chain hadmits.ends hclimb
    rw [Expr.text_chain]
    refine (reads_front hbase hadmits.chain (nameEnds_links ls hadmits.ends) hclimbs).congr ?_
    have hlevels : (Expr.chain base ls).levels =
        max (base.baseNesting (base.nesting 0)) (1 + Link.nestingAll ls) := by
      rw [Expr.levels_of_not_sequence id]
      simp only [Expr.nesting]
      omega
    rw [hlevels, ← and_assoc]
    refine and_congr_left' ?_
    omega

end TreeQuery.Parser
