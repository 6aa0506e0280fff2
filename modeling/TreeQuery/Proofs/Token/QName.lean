import TreeQuery.Expr.Parser.Names
import TreeQuery.Proofs.Token.Words

/-!
# Qualified names in texts

A qualified name is written in one piece and taken apart at its only colon. While its tokens are
joined again the joined text is the stem of a name, and it is none any more when a character follows
that belongs to no name.
-/

namespace TreeQuery

open TreeQuery.Parser

/-! ### The colon -/

/-- A text is split at its first colon. -/
theorem splitOnce_append {q : List Char} (hq : ':' ∉ q) (l : List Char) :
    Text.splitOnce ':' (q ++ ':' :: l) = some (q, l) := by
  induction q with
  | nil => simp [Text.splitOnce, Text.cut]
  | cons c q ih =>
    rw [List.mem_cons, not_or] at hq
    have ih' := ih hq.2
    simp only [Text.splitOnce] at ih' ⊢
    simp [Text.cut, hq.1, ih']

/-- A text without a colon is not split. -/
theorem splitOnce_eq_none {cs : List Char} (h : ':' ∉ cs) : Text.splitOnce ':' cs = none := by
  induction cs with
  | nil => rfl
  | cons c cs ih =>
    rw [List.mem_cons, not_or] at h
    have ih' := ih h.2
    simp only [Text.splitOnce] at ih' ⊢
    simp [Text.cut, h.1, ih']

/-- A name is made of the characters of names. -/
theorem IsName.forall_isNameChar {cs : List Char} (h : IsName cs) :
    ∀ c ∈ cs, isNameChar c = true := by
  obtain ⟨c, ds, rfl, hc, hds⟩ := h.start
  exact List.forall_mem_cons.mpr ⟨isNameChar_of_isNameStart hc, hds⟩

theorem IsName.ne_nil {cs : List Char} (h : IsName cs) : cs ≠ [] := by
  obtain ⟨c, ds, rfl, -, -⟩ := h.start
  exact List.cons_ne_nil c ds

/-- No other character is in a name. -/
theorem IsName.not_mem {cs : List Char} (h : IsName cs) {c : Char} (hc : isNameChar c = false) :
    c ∉ cs := by
  intro hmem
  rw [h.forall_isNameChar c hmem] at hc
  contradiction

/-- No name starts with a colon. -/
theorem IsName.head_ne {cs rest : List Char} (h : IsName cs) : (cs ++ rest).head? ≠ some ':' := by
  obtain ⟨c, ds, rfl, hc, -⟩ := h.start
  exact fun hhead => isNameStart_ne hc (d := ':') (by decide) (Option.some.inj hhead)

namespace QName

/-- The name and its qualifier are unqualified names. -/
structure WellFormed (n : QName) : Prop where
  localName : isSimpleName n.localName.toList = true
  qualifier : ∀ q, n.qualifier = some q → isSimpleName q.toList = true

/-- A qualified name is read back from its text. -/
theorem parse?_render {n : QName} (h : n.WellFormed) : parse? n.render = some n := by
  obtain ⟨qualifier, localName⟩ := n
  obtain ⟨hlocal, hqualifier⟩ := h
  dsimp only at hlocal hqualifier
  have hcolon {s : String} (h : isSimpleName s.toList = true) : ':' ∉ s.toList :=
    (isName_of_isSimpleName h).not_mem (by decide)
  cases qualifier with
  | none =>
    rw [render, parse?, splitOnce_eq_none (hcolon hlocal)]
    simp only [if_pos hlocal]
    rfl
  | some q =>
    have hq := hqualifier q rfl
    have htext : (q ++ ":" ++ localName).toList = q.toList ++ ':' :: localName.toList := by simp
    rw [render, parse?, htext, splitOnce_append (hcolon hq)]
    simp [hq, hlocal]

/-- What is parsed is a name. -/
theorem wellFormed_of_parse? {text : String} {n : QName} (h : parse? text = some n) :
    n.WellFormed := by
  unfold parse? at h
  split at h
  · next q l hsplit =>
    split at h
    · next hboth =>
      rw [Bool.and_eq_true] at hboth
      obtain rfl := Option.some.inj h
      refine ⟨by simpa using hboth.2, ?_⟩
      rintro _ ⟨rfl⟩
      simpa using hboth.1
    · contradiction
  · split at h
    · next hsimple =>
      obtain rfl := Option.some.inj h
      exact ⟨hsimple, nofun⟩
    · contradiction

/-- What is read as a name is written like the name. -/
theorem render_of_parse? {text : String} {n : QName} (h : parse? text = some n) :
    n.render = text := by
  unfold parse? at h
  split at h
  · next q l hsplit =>
    split at h
    · obtain rfl := Option.some.inj h
      rw [← String.toList_inj, Text.eq_of_cut hsplit]
      simp [render]
    · contradiction
  · split at h
    · obtain rfl := Option.some.inj h
      rfl
    · contradiction

/-- A name is the text of its local part, or that behind the qualifier and a colon. -/
theorem WellFormed.toList_render {n : QName} (h : n.WellFormed) :
    IsName n.localName.toList ∧
      (n.qualifier = none ∧ n.render.toList = n.localName.toList ∨
        ∃ q, n.qualifier = some q ∧ IsName q.toList ∧
          n.render.toList = q.toList ++ ':' :: n.localName.toList) := by
  obtain ⟨qualifier, localName⟩ := n
  refine ⟨isName_of_isSimpleName h.localName, ?_⟩
  cases qualifier with
  | none => exact Or.inl ⟨rfl, rfl⟩
  | some q => exact Or.inr ⟨q, rfl, isName_of_isSimpleName (h.qualifier q rfl), by simp [render]⟩

end QName

/-! ### Stems of names -/

/-- A stem is a name or a star, or two of them with a colon between, the second of which may be
missing. -/
theorem isNameStem_cases {cs : List Char} (h : isNameStem cs = true) :
    (cs = ['*'] ∨ isSimpleName cs = true) ∨ ∃ q l, cs = q ++ ':' :: l ∧
      (q = ['*'] ∨ isSimpleName q = true) ∧ (l = [] ∨ l = ['*'] ∨ isSimpleName l = true) := by
  unfold isNameStem at h
  split at h
  · rw [Bool.or_eq_true, beq_iff_eq] at h
    exact Or.inl h
  · next l hsplit =>
    rw [Bool.or_eq_true, List.isEmpty_iff] at h
    exact Or.inr ⟨_, l, by simpa using Text.eq_of_cut hsplit, Or.inl rfl, h.imp_right Or.inr⟩
  · next q l _ hsplit =>
    simp only [Bool.and_eq_true, Bool.or_eq_true, List.isEmpty_iff, beq_iff_eq, or_assoc] at h
    exact Or.inr ⟨q, l, by simpa using Text.eq_of_cut hsplit, Or.inr h.1, h.2⟩

/-- The characters of a stem belong to names, but for the colon and the star. -/
theorem isNameChar_of_isNameStem {cs : List Char} (h : isNameStem cs = true) {c : Char}
    (hc : c ∈ cs) : isNameChar c = true ∨ c = ':' ∨ c = '*' := by
  have hpart {part : List Char} (hpart : part = ['*'] ∨ isSimpleName part = true) (hc : c ∈ part) :
      isNameChar c = true ∨ c = ':' ∨ c = '*' := by
    rcases hpart with rfl | hpart
    · exact Or.inr (Or.inr (List.mem_singleton.mp hc))
    · exact Or.inl ((isName_of_isSimpleName hpart).forall_isNameChar c hc)
  rcases isNameStem_cases h with h | ⟨q, l, rfl, hq, hl⟩
  · exact hpart h hc
  · rcases List.mem_append.mp hc with hc | hc
    · exact hpart hq hc
    · rcases List.mem_cons.mp hc with hc | hc
      · exact Or.inr (Or.inl hc)
      · refine hpart (hl.resolve_left ?_) hc
        rintro rfl
        contradiction

/-- What may stand on a side of the colon in a name test: a name, or a star. -/
def IsNamePart (cs : List Char) : Prop := IsName cs ∨ cs = ['*']

/-- No colon is in a side of a name test. -/
theorem IsNamePart.not_mem {cs : List Char} (h : IsNamePart cs) : ':' ∉ cs := by
  rcases h with h | rfl
  · exact h.not_mem (by decide)
  · decide

theorem IsNamePart.ne_nil {cs : List Char} (h : IsNamePart cs) : cs ≠ [] := by
  rcases h with h | rfl
  · exact h.ne_nil
  · decide

private theorem IsName.ne_star {cs : List Char} (h : IsName cs) : cs ≠ ['*'] := by
  rintro rfl
  exact absurd h.isSimpleName (by decide)

/-- A star behind a part of a name belongs to no name. -/
theorem IsNamePart.append_star {cs : List Char} (h : IsNamePart cs) :
    cs ++ ['*'] ≠ [] ∧ cs ++ ['*'] ≠ ['*'] ∧ isSimpleName (cs ++ ['*']) = false := by
  refine ⟨by simp, fun heq => h.ne_nil (List.append_left_eq_self.mp heq), ?_⟩
  by_contra hsimple
  rw [Bool.not_eq_false] at hsimple
  exact (isName_of_isSimpleName hsimple).not_mem (c := '*') (by decide) (by simp)

/-- A side of a name test with a colon behind it may start a name. -/
theorem isNameStem_qualifier {q : List Char} (hq : IsNamePart q) : isNameStem (q ++ [':']) = true := by
  have hsplit := splitOnce_append hq.not_mem []
  unfold isNameStem
  rw [hsplit]
  split
  · contradiction
  · next heq =>
    obtain ⟨-, rfl⟩ := Prod.mk.inj (Option.some.inj heq)
    rfl
  · next hstar heq =>
    obtain ⟨rfl, rfl⟩ := Prod.mk.inj (Option.some.inj heq)
    rcases hq with hq | rfl
    · simp [hq.isSimpleName]
    · exact absurd rfl hstar

/-- Two parts make a stem if they are not both stars. -/
theorem isNameStem_qualified {q l : List Char} (hq : IsNamePart q) (hl : IsNamePart l)
    (hname : IsName q ∨ IsName l) : isNameStem (q ++ ':' :: l) = true := by
  have hsplit := splitOnce_append hq.not_mem l
  unfold isNameStem
  rw [hsplit]
  split
  · contradiction
  · next heq =>
    obtain ⟨rfl, rfl⟩ := Prod.mk.inj (Option.some.inj heq)
    rcases hname with hq | hl
    · exact absurd rfl hq.ne_star
    · simp [hl.isSimpleName]
  · next hstar heq =>
    obtain ⟨rfl, rfl⟩ := Prod.mk.inj (Option.some.inj heq)
    rcases hq with hq | rfl
    · rcases hl with hl | rfl
      · simp [hq.isSimpleName, hl.isSimpleName]
      · simp [hq.isSimpleName]
    · exact absurd rfl hstar

end TreeQuery
