import TreeQuery.Proofs.Parser.Reads
import TreeQuery.Proofs.Token.QName

/-!
# Reading names

The tokens of a qualified name are joined again when it is read. `NameEnds` is what is asked of the
text behind a name: it breaks, and a colon in it does not belong to the name, since a blank follows.
-/

namespace TreeQuery

open TreeQuery.Parser

/-! ### One token more -/

/-- The tokens of a text are its first token and those of what is left. -/
theorem Cursor.tokens_of_starts {cs rest : List Char} {kind : TokenKind} {text : String}
    (h : Starts cs kind text rest) (hkind : kind ≠ .eof) (before : List Char) :
    ∃ t, (Cursor.mk cs (byteLength before)).tokens =
        t :: (Cursor.mk rest (byteLength (before ++ Cursor.consumed cs))).tokens ∧
      t.text = text ∧ t.spaced = (!(splitTrivia cs).1.isEmpty ||
        byteLength before + byteLength (splitTrivia cs).1 == 0) := by
  have heof : nextKind cs ≠ .eof := by rwa [h.kind]
  rw [Cursor.tokens_of_not_eof heof, h.rest, byteLength_append]
  exact ⟨_, rfl, h.text, rfl⟩

/-- The token that comes first starts like the text, if nothing stands in front of it. -/
theorem exists_nextText_eq {c : Char} {cs : List Char} (h : (splitTrivia (c :: cs)).1 = []) :
    ∃ ds, (nextText (c :: cs)).toList = c :: ds := by
  have happend := append_splitTriviaFrom 0 (c :: cs)
  rw [← splitTrivia, h, List.nil_append] at happend
  obtain ⟨n, hn⟩ := Nat.exists_eq_add_of_le' (lexeme_pos c cs)
  refine ⟨cs.take n, ?_⟩
  rw [nextText, happend, hn, String.toList_ofList]
  rfl

/-- A single colon is a token if no other colon and no `=` follows. -/
theorem starts_colon {cs : List Char} (h : cs.head? ≠ some ':' ∧ cs.head? ≠ some '=') :
    Starts (':' :: cs) .colon ":" cs := by
  refine @starts_of_lexeme ':' [] _ _ (by decide) (Or.inl (by decide)) ?_
  cases cs with
  | nil => rfl
  | cons c cs =>
    have hcolon : ':' ≠ c := fun heq => h.1 (by rw [heq]; rfl)
    have hassign : '=' ≠ c := fun heq => h.2 (by rw [heq]; rfl)
    have hscan : scanName (':' :: c :: cs) = none := rfl
    simp [lexeme, hscan, Text.isDigit, symbols, hcolon, hassign]

private theorem splitTrivia_fst_of_isNamePart {cs : List Char} (h : IsNamePart cs) (rest : List Char) :
    (splitTrivia (cs ++ rest)).1 = [] := by
  rcases h with h | rfl
  · obtain ⟨c, ds, rfl, hc, -⟩ := h.start
    have hparen : c ≠ '(' := isNameStart_ne hc (by decide)
    rw [List.cons_append, splitTrivia_token (isBlank_of_isNameStart hc) (Or.inl hparen)]
  · rw [List.cons_append, splitTrivia_token (by decide) (Or.inl (by decide))]

/-- A colon in a name test is a token of its own. -/
theorem starts_colon_isNamePart {l : List Char} (hl : IsNamePart l) (rest : List Char) :
    Starts (':' :: (l ++ rest)) .colon ":" (l ++ rest) := by
  rcases hl with hl | rfl
  · obtain ⟨c, ds, rfl, hc, -⟩ := hl.start
    exact starts_colon ⟨fun h => isNameStart_ne hc (d := ':') (by decide) (Option.some.inj h),
      fun h => isNameStart_ne hc (d := '=') (by decide) (Option.some.inj h)⟩
  · exact starts_colon ⟨by simp, by simp⟩

/-- A part of a name is one token. -/
theorem IsNamePart.starts {cs rest : List Char} (h : IsNamePart cs) (hrest : Breaks rest) :
    ∃ kind, kind ∈ [.name, .star] ∧ Starts (cs ++ rest) kind (String.ofList cs) rest := by
  rcases h with h | rfl
  · exact ⟨.name, by simp, h.starts hrest⟩
  · exact ⟨.star, by simp, starts_mark rfl rest⟩

/-! ### The end of a name -/

/-- A text that cannot go on with a qualified name in front of it. -/
structure NameEnds (rest : List Char) : Prop where
  breaks : Breaks rest
  colon : ∀ cs, rest = ':' :: cs → cs.head? = some ' '

/-- The text of a qualified name or of a name test. -/
inductive IsNameText : List Char → Prop where
  | simple {l : List Char} (hl : IsNamePart l) : IsNameText l
  | qualified {q l : List Char} (hq : IsNamePart q) (hl : IsNamePart l) : IsNameText (q ++ ':' :: l)

/-- A star ends a name too. -/
theorem isNameStem_star {joined : List Char} (h : IsNameText joined) :
    isNameStem (joined ++ ['*']) = false := by
  cases h with
  | simple hl =>
    have hcolon : ':' ∉ joined ++ ['*'] := by
      simp [hl.not_mem]
    rw [isNameStem, splitOnce_eq_none hcolon]
    simp [hl.append_star]
  | @qualified q l hq hl =>
    have hsplit := splitOnce_append hq.not_mem (l ++ ['*'])
    have htext : q ++ ':' :: l ++ ['*'] = q ++ ':' :: (l ++ ['*']) := by simp
    unfold isNameStem
    rw [htext, hsplit]
    split
    · contradiction
    · next heq =>
      obtain ⟨-, rfl⟩ := Prod.mk.inj (Option.some.inj heq)
      simp [hl.append_star]
    · next heq =>
      obtain ⟨rfl, rfl⟩ := Prod.mk.inj (Option.some.inj heq)
      simp [hl.append_star]

/-- Behind blanks no token belongs to a name. -/
theorem joinName_blank (best : List Char × List Token) (joined cs : List Char) (offset : Nat) :
    joinName best joined (Cursor.mk (' ' :: cs) offset).tokens = best := by
  by_cases heof : nextKind (' ' :: cs) = .eof
  · rw [Cursor.tokens_of_eof heof, joinName]
  · rw [Cursor.tokens_of_not_eof heof, joinName]
    simp [splitTrivia_blank (show Text.isBlank ' ' = true by decide)]

/-- A token is joined to what comes before it without a blank, if the text is still a stem. -/
theorem joinName_joins {joined piece cs rest before : List Char} {kind : TokenKind}
    (h : Starts cs kind (String.ofList piece) rest) (hkind : kind ≠ .eof)
    (htrivia : (splitTrivia cs).1 = []) (hbefore : 0 < byteLength before)
    (hstem : isNameStem (joined ++ piece) = true) (best : List Char × List Token) :
    let ts := (Cursor.mk rest (byteLength (before ++ Cursor.consumed cs))).tokens
    joinName best joined (Cursor.mk cs (byteLength before)).tokens =
      joinName (if (joined ++ piece).getLast? = some ':' then best else (joined ++ piece, ts))
        (joined ++ piece) ts := by
  obtain ⟨t, htokens, htext, hspaced⟩ := Cursor.tokens_of_starts h hkind before
  have hunspaced : t.spaced = false := by
    rw [hspaced, htrivia]
    simpa using Nat.ne_of_gt hbefore
  dsimp only
  rw [htokens, joinName, hunspaced, htext, String.toList_ofList, hstem]
  rfl

/-- Nothing is joined to a whole name in front of its end. -/
theorem joinName_ends {joined rest : List Char} (hjoined : IsNameText joined)
    (hrest : NameEnds rest) (best : List Char × List Token) (offset : Nat) :
    joinName best joined (Cursor.mk rest offset).tokens = best := by
  by_cases heof : nextKind rest = .eof
  · rw [Cursor.tokens_of_eof heof, joinName]
  rw [Cursor.tokens_of_not_eof heof, joinName]
  dsimp only
  split
  · rfl
  next hjoins =>
  rw [Bool.or_eq_true, not_or] at hjoins
  have htrivia : (splitTrivia rest).1 = [] := by
    have hspaced := hjoins.1
    rw [Bool.or_eq_true, not_or] at hspaced
    simpa using hspaced.1
  have hstem : isNameStem (joined ++ (nextText rest).toList) = true := by
    simpa using hjoins.2
  cases rest with
  | nil => exact absurd rfl heof
  | cons c cs =>
    obtain ⟨ds, hds⟩ := exists_nextText_eq htrivia
    have hmem : c ∈ joined ++ (nextText (c :: cs)).toList := by simp [hds]
    rcases isNameChar_of_isNameStem hstem hmem with hc | rfl | rfl
    · rw [(hrest.breaks c rfl).1] at hc
      contradiction
    · obtain ⟨ds, rfl⟩ : ∃ ds, cs = ' ' :: ds := by
        have hhead := hrest.colon cs rfl
        cases cs with
        | nil => contradiction
        | cons d ds => exact ⟨ds, by rw [Option.some.inj hhead]⟩
      have hcolon : Starts (':' :: ' ' :: ds) .colon ":" (' ' :: ds) := ⟨rfl, rfl, rfl⟩
      rw [hcolon.text, hcolon.rest]
      have hlast : (joined ++ ":".toList).getLast? = some ':' := by simp
      rw [if_pos hlast]
      exact joinName_blank _ _ _ _
    · have hstar : nextText ('*' :: cs) = "*" := rfl
      rw [hstar, show "*".toList = ['*'] from rfl, isNameStem_star hjoined] at hstem
      contradiction

end TreeQuery

namespace TreeQuery.Parser

/-! ### Qualified names -/

variable {n : QName} {rest : List Char}

/-- A part of a name that stands alone is one token, and nothing is joined to it. -/
theorem reads_takeName_simple {l : List Char} (hl : IsNamePart l) (hrest : NameEnds rest) :
    Reads True takeName (l ++ rest) (String.ofList l) rest := by
  refine reads_of_fits fun s hs => ?_
  obtain ⟨kind, hkind, hstarts⟩ := hl.starts hrest.breaks
  have heof : kind ≠ .eof := by
    rintro rfl
    contradiction
  obtain ⟨t, ts, hcons, -, htext⟩ := hs.exists_cons (hstarts.kind.trans_ne heof)
  obtain ⟨before, -, -, htokens⟩ := hs.behind
  have htail := hs.tail
  rw [hcons, hstarts.rest] at htokens htail
  have hsplit : splitName s.tokens = (l, ts) := by
    rw [hcons, splitName, htext, hstarts.text, String.toList_ofList, show ts = _ from htokens]
    exact joinName_ends (.simple hl) hrest _ _
  change String.ofList (splitName s.tokens).1 = _ ∧
    ParserState.At { s with tokens := (splitName s.tokens).2 } rest
  rw [hsplit]
  exact ⟨rfl, htail⟩

/-- Two parts of a name with a colon between them are three tokens, which are joined again. -/
theorem reads_takeName_qualified {q l : List Char} (hq : IsNamePart q) (hl : IsNamePart l)
    (hname : IsName q ∨ IsName l) (hrest : NameEnds rest) :
    Reads True takeName (q ++ ':' :: (l ++ rest)) (String.ofList (q ++ ':' :: l)) rest := by
  refine reads_of_fits fun s hs => ?_
  obtain ⟨kind, hkind, hqualifier⟩ := hq.starts (breaks_cons (c := ':') (by decide) (l ++ rest))
  have hcolon : Starts (':' :: (l ++ rest)) .colon (String.ofList [':']) (l ++ rest) :=
    starts_colon_isNamePart hl rest
  obtain ⟨kind', hkind', hlocal⟩ := hl.starts hrest.breaks
  have hkinds : kind ≠ .eof ∧ kind' ≠ .eof := by
    constructor
    · rintro rfl
      contradiction
    · rintro rfl
      contradiction
  obtain ⟨t, ts, hcons, -, htext⟩ := hs.exists_cons (hqualifier.kind.trans_ne hkinds.1)
  obtain ⟨before, hsource, hpos, htokens⟩ := hs.behind
  have hbefore := hpos (hqualifier.kind.trans_ne hkinds.1)
  rw [hcons, hqualifier.rest] at htokens
  rw [hqualifier.rest] at hsource
  have hbefore' : 0 < byteLength (before ++ Cursor.consumed (':' :: (l ++ rest))) := by
    rw [byteLength_append]
    exact Nat.add_pos_left hbefore _
  have htrivia : (splitTrivia (':' :: (l ++ rest))).1 = [] := by
    rw [splitTrivia_token (by decide) (Or.inl (by decide))]
  have hlast : (q ++ [':'] ++ l).getLast? ≠ some ':' := by
    obtain ⟨d, hd⟩ := Option.ne_none_iff_exists'.mp
      (fun hnone => hl.ne_nil (List.getLast?_eq_none_iff.mp hnone))
    rw [List.getLast?_append, hd]
    exact fun h => hl.not_mem (List.mem_of_getLast? (hd.trans h))
  have hstem : isNameStem (q ++ [':'] ++ l) = true := by
    rw [List.append_assoc]
    exact isNameStem_qualified hq hl hname
  have hjoined : IsNameText (q ++ [':'] ++ l) := by
    rw [List.append_assoc]
    exact .qualified hq hl
  have hsplit : splitName s.tokens = (q ++ [':'] ++ l,
      (Cursor.mk rest (byteLength (before ++ Cursor.consumed (':' :: (l ++ rest)) ++
        Cursor.consumed (l ++ rest)))).tokens) := by
    rw [hcons, splitName, htext, hqualifier.text, String.toList_ofList, show ts = _ from htokens,
      joinName_joins hcolon (by decide) htrivia hbefore (isNameStem_qualifier hq), if_pos (by simp),
      joinName_joins hlocal hkinds.2 (splitTrivia_fst_of_isNamePart hl rest) hbefore' hstem,
      if_neg hlast]
    exact joinName_ends hjoined hrest _ _
  change String.ofList (splitName s.tokens).1 = _ ∧
    ParserState.At { s with tokens := (splitName s.tokens).2 } rest
  rw [hsplit]
  refine ⟨by simp, hs.errors, before ++ Cursor.consumed (':' :: (l ++ rest)) ++
    Cursor.consumed (l ++ rest), ?_⟩
  obtain ⟨spaced, hspaced⟩ := exists_respaced (Cursor.mk rest (byteLength (before ++
    Cursor.consumed (':' :: (l ++ rest)) ++ Cursor.consumed (l ++ rest)))).tokens
  have hcolonText := Cursor.consumed_append (':' :: (l ++ rest))
  have hlocalText := Cursor.consumed_append (l ++ rest)
  rw [hcolon.rest] at hcolonText
  rw [hlocal.rest] at hlocalText
  refine ⟨spaced, ?_, hspaced⟩
  change s.source = _
  rw [List.append_assoc, hlocalText, List.append_assoc, hcolonText]
  exact hsource

/-- A qualified name is taken to its end. -/
theorem reads_takeName (hn : n.WellFormed) (hrest : NameEnds rest) :
    Reads True takeName (n.render.toList ++ rest) n.render rest := by
  obtain ⟨hlocal, ⟨-, htext⟩ | ⟨q, -, hq, htext⟩⟩ := hn.toList_render
  · have h := reads_takeName_simple (Or.inl hlocal) hrest
    rwa [← htext, String.ofList_toList] at h
  · have h := reads_takeName_qualified (Or.inl hq) (Or.inl hlocal) (Or.inl hq) hrest
    rw [← htext, String.ofList_toList] at h
    rwa [htext, List.append_assoc]

/-- A text that is a qualified name is read as that name. -/
theorem reads_nameOf (hn : n.WellFormed) (start : Token) :
    Reads True (nameOf start n.render) rest n rest := by
  rw [nameOf, QName.parse?_render hn]
  exact reads_pure

/-- A qualified name starts with a name. -/
theorem nextKind_render (hn : n.WellFormed) (hrest : NameEnds rest) :
    nextKind (n.render.toList ++ rest) = .name := by
  obtain ⟨hlocal, ⟨-, htext⟩ | ⟨q, -, hq, htext⟩⟩ := hn.toList_render
  · rw [htext, (hlocal.starts hrest.breaks).kind]
  · rw [htext, List.append_assoc, List.cons_append, (hq.starts (breaks_cons (by decide) _)).kind]

/-- A qualified name is read back. -/
theorem reads_qualifiedName (hn : n.WellFormed) (hrest : NameEnds rest) (expected : String) :
    Reads True (qualifiedName expected) (n.render.toList ++ rest) n rest := by
  refine (reads_isAt _).then ?_
  rw [nextKind_render hn hrest, beq_self_eq_true, if_pos rfl]
  exact reads_current fun t _ _ => (reads_takeName hn hrest).then (reads_nameOf hn t)

end TreeQuery.Parser
