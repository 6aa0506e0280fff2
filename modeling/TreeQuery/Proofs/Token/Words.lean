import Mathlib.Data.List.TakeWhile
import Mathlib.Tactic.Common
import TreeQuery.Proofs.Token.Next
import TreeQuery.Text.Quoted

/-!
# Names, numerals and strings as tokens

A name, a numeral or a string is one token if what follows it cannot belong to it. `Breaks` is what
is asked of the text that follows.
-/

namespace TreeQuery

/-! ### Characters -/

private theorem isAlphabetic_of_lt {c : Char} (h : c.toNat < 128) :
    Text.isAlphabetic c = Text.isAsciiLetter c := if_pos h

/-- The blanks beyond ASCII. -/
def wideBlanks : List Nat := [0x85, 0xA0, 0x1680, 0x2000, 0x2001, 0x2002, 0x2003, 0x2004, 0x2005, 0x2006,
  0x2007, 0x2008, 0x2009, 0x200A, 0x2028, 0x2029, 0x202F, 0x205F, 0x3000]

/-- No blank is a letter or a numeral. Beyond ASCII this is read off the tables. -/
theorem isAlphanumeric_of_isBlank {c : Char} (h : Text.isBlank c = true) :
    Text.isAlphanumeric c = false := by
  have htables : ∀ n ∈ wideBlanks,
      ((Text.alphabeticChanges.takeWhile fun k => decide (k ≤ n)).length % 2 == 1) = false ∧
        ((Text.numeralChanges.takeWhile fun k => decide (k ≤ n)).length % 2 == 1) = false := by
    decide +kernel
  simp only [Text.isBlank, Bool.or_eq_true, Bool.and_eq_true, decide_eq_true_eq, beq_iff_eq] at h
  rw [Text.isAlphanumeric, Text.isAlphabetic, Text.isNumeral, Bool.or_eq_false_iff]
  by_cases hc : c.toNat < 128
  · rw [if_pos hc, if_pos hc]
    simp only [Text.isAsciiLetter, Text.isDigit, Bool.or_eq_false_iff, Bool.and_eq_false_iff,
      decide_eq_false_iff_not]
    omega
  · have hmem : c.toNat ∈ wideBlanks := by
      simp only [wideBlanks, List.mem_cons, List.not_mem_nil, or_false]
      omega
    rw [if_neg hc, if_neg hc]
    exact htables _ hmem

private theorem isBlank_of_isAlphabetic {c : Char} (h : Text.isAlphabetic c = true) :
    Text.isBlank c = false := by
  refine Bool.eq_false_iff.mpr fun hblank => ?_
  have hnone := isAlphanumeric_of_isBlank hblank
  rw [Text.isAlphanumeric, h] at hnone
  contradiction

/-- No blank is in a name. -/
theorem isNameChar_of_isBlank {c : Char} (h : Text.isBlank c = true) : isNameChar c = false := by
  have hne {d : Char} (hd : Text.isBlank d = false) : (c == d) = false := by
    refine beq_false_of_ne ?_
    rintro rfl
    rw [h] at hd
    contradiction
  rw [isNameChar, isAlphanumeric_of_isBlank h, hne (by decide), hne (by decide)]
  rfl

/-- A character that starts names is none that does not. -/
theorem isNameStart_ne {c : Char} (h : isNameStart c = true) {d : Char}
    (hd : isNameStart d = false) : c ≠ d := by
  rintro rfl
  rw [h] at hd
  contradiction

/-- No digit starts a name. -/
theorem isDigit_of_isNameStart {c : Char} (h : isNameStart c = true) : Text.isDigit c = false := by
  by_contra hdigit
  rw [Bool.not_eq_false] at hdigit
  simp only [Text.isDigit, Bool.and_eq_true, decide_eq_true_eq] at hdigit
  have hlt : c.toNat < 128 := by omega
  simp only [isNameStart, isAlphabetic_of_lt hlt, Text.isAsciiLetter, Bool.or_eq_true,
    Bool.and_eq_true, decide_eq_true_eq, beq_iff_eq] at h
  rcases h with h | rfl
  · omega
  · exact absurd hdigit (by decide)

/-- No blank starts a name. -/
theorem isBlank_of_isNameStart {c : Char} (h : isNameStart c = true) : Text.isBlank c = false := by
  simp only [isNameStart, Bool.or_eq_true, beq_iff_eq] at h
  rcases h with h | rfl
  · exact isBlank_of_isAlphabetic h
  · decide

/-- Digits may stand in a name. -/
theorem isNameChar_of_isDigit {c : Char} (h : Text.isDigit c = true) : isNameChar c = true := by
  have hlt : c.toNat < 128 := by
    simp only [Text.isDigit, Bool.and_eq_true, decide_eq_true_eq] at h
    omega
  simp [isNameChar, Text.isAlphanumeric, Text.isNumeral, if_pos hlt, h]

/-- A text that cannot go on with a word, a numeral or a string in front of it. -/
def Breaks (rest : List Char) : Prop :=
  ∀ c, rest.head? = some c → isNameChar c = false ∧ c ≠ '.' ∧ c ≠ '\x22'

theorem breaks_nil : Breaks [] := nofun

/-- A text breaks off what is in front of it if its first character cannot go on with it. -/
theorem breaks_cons {c : Char} (h : isNameChar c = false ∧ c ≠ '.' ∧ c ≠ '\x22') (cs : List Char) :
    Breaks (c :: cs) := by
  rintro _ ⟨⟩
  exact h

/-- What a list starts with is taken as far as the property goes. -/
theorem takeWhile_append_of_head {p : Char → Bool} {cs rest : List Char} (hcs : ∀ c ∈ cs, p c = true)
    (hrest : ∀ c, rest.head? = some c → ¬ p c = true) : (cs ++ rest).takeWhile p = cs := by
  rw [List.takeWhile_append_of_pos hcs]
  cases rest with
  | nil => simp
  | cons c rest => rw [List.takeWhile_cons_of_neg (hrest c rfl), List.append_nil]

/-- Characters of names are taken up to the text that breaks them off. -/
theorem Breaks.takeWhile {rest : List Char} (h : Breaks rest) {p : Char → Bool}
    (hp : ∀ c, p c = true → isNameChar c = true) {cs : List Char} (hcs : ∀ c ∈ cs, p c = true) :
    (cs ++ rest).takeWhile p = cs := by
  refine takeWhile_append_of_head hcs fun c hc hpc => ?_
  have hname := hp c hpc
  rw [(h c hc).1] at hname
  contradiction

/-! ### Names -/

/-- A name starts with a letter or `_`, goes on with name characters, and loses nothing when the
hyphens at its end are dropped. -/
structure IsName (cs : List Char) : Prop where
  start : ∃ c ds, cs = c :: ds ∧ isNameStart c = true ∧ ∀ d ∈ ds, isNameChar d = true
  hyphens : dropHyphens cs = cs

/-- A name without the hyphens at its end starts the name. -/
theorem dropHyphens_initial (cs : List Char) : dropHyphens cs <+: cs := by
  have hsuffix : cs.reverse.dropWhile (· == '-') <:+ cs.reverse := List.dropWhile_suffix _
  rw [dropHyphens]
  rwa [← List.reverse_prefix, List.reverse_reverse] at hsuffix

/-- A simple name is a name. -/
theorem isName_of_isSimpleName {cs : List Char} (h : isSimpleName cs = true) : IsName cs := by
  cases cs with
  | nil => contradiction
  | cons c ds =>
    by_cases hc : isNameStart c = true
    · have hrest : (c :: ds).drop (dropHyphens (c :: ds.takeWhile isNameChar)).length = [] := by
        simp only [isSimpleName, scanName, if_pos hc] at h
        split at h
        · next heq => exact congrArg Prod.snd (Option.some.inj heq)
        · contradiction
      have hlength := List.drop_eq_nil_iff.mp hrest
      have hdrop := (dropHyphens_initial (c :: ds.takeWhile isNameChar)).length_le
      have hinitial : ds.takeWhile isNameChar <+: ds := List.takeWhile_prefix _
      have htake : ds.takeWhile isNameChar = ds := by
        refine hinitial.eq_of_length (Nat.le_antisymm hinitial.length_le ?_)
        simp only [List.length_cons] at hlength hdrop
        omega
      rw [htake] at hlength
      exact ⟨⟨c, ds, rfl, hc, List.takeWhile_eq_self_iff.mp htake⟩,
        (dropHyphens_initial _).eq_of_length (Nat.le_antisymm (dropHyphens_initial _).length_le hlength)⟩
    · simp [isSimpleName, scanName, if_neg hc] at h

/-- What starts a name may stand in one. -/
theorem isNameChar_of_isNameStart {c : Char} (h : isNameStart c = true) : isNameChar c = true := by
  simp only [isNameStart, Bool.or_eq_true, beq_iff_eq] at h
  simp only [isNameChar, Text.isAlphanumeric, Bool.or_eq_true, beq_iff_eq]
  exact Or.inl (h.imp_left Or.inl)

/-- What is read as a name is a start of the text. -/
theorem prefix_of_scanName {cs name rest : List Char} (h : scanName cs = some (name, rest)) :
    name <+: cs ∧ ∀ c ∈ name, isNameChar c = true := by
  cases cs with
  | nil => contradiction
  | cons c cs =>
    by_cases hc : isNameStart c = true
    · rw [scanName, if_pos hc] at h
      obtain rfl := congrArg Prod.fst (Option.some.inj h)
      have hinitial := dropHyphens_initial (c :: cs.takeWhile isNameChar)
      refine ⟨hinitial.trans (List.prefix_cons_inj c |>.mpr (List.takeWhile_prefix _)), fun d hd => ?_⟩
      rcases List.mem_cons.mp (hinitial.subset hd) with rfl | hd
      · exact isNameChar_of_isNameStart hc
      · exact List.mem_takeWhile_imp hd
    · rw [scanName, if_neg hc] at h
      contradiction

/-- A name is read as a whole if what follows it breaks. -/
theorem IsName.scanName {cs rest : List Char} (h : IsName cs) (hrest : Breaks rest) :
    scanName (cs ++ rest) = some (cs, rest) := by
  obtain ⟨c, ds, rfl, hc, hds⟩ := h.start
  rw [List.cons_append, TreeQuery.scanName, if_pos hc, hrest.takeWhile (fun _ h => h) hds, h.hyphens,
    ← List.cons_append]
  exact congrArg (fun ds => some (c :: _, ds)) List.drop_left

/-- A name is a simple name. -/
theorem IsName.isSimpleName {cs : List Char} (h : IsName cs) : isSimpleName cs = true := by
  rw [TreeQuery.isSimpleName, ← List.append_nil cs, h.scanName breaks_nil]

/-- A name is read as one token, up to the text that breaks it off. -/
theorem IsName.starts {cs rest : List Char} (h : IsName cs) (hrest : Breaks rest) :
    Starts (cs ++ rest) .name (String.ofList cs) rest := by
  obtain ⟨c, ds, rfl, hc, hds⟩ := h.start
  have hparen : c ≠ '(' := isNameStart_ne hc (by decide)
  have hdot : (c == '.') = false := beq_false_of_ne (isNameStart_ne hc (by decide))
  have hdouble : (c == '\x22') = false := beq_false_of_ne (isNameStart_ne hc (by decide))
  have hsingle : (c == '\x27') = false := beq_false_of_ne (isNameStart_ne hc (by decide))
  refine starts_of_lexeme (isBlank_of_isNameStart hc) (Or.inl hparen) ?_
  have hscan := h.scanName hrest
  rw [List.cons_append] at hscan ⊢
  simp only [lexeme, isDigit_of_isNameStart hc, hdot, hdouble, hsingle, hscan, Bool.false_and,
    Bool.or_self, Bool.false_eq_true, if_false]

/-- A word that is spelled out. -/
theorem starts_word {word : String} (h : isSimpleName word.toList = true) {rest : List Char}
    (hrest : Breaks rest) : Starts (word.toList ++ rest) .name word rest := by
  have hstarts := (isName_of_isSimpleName h).starts hrest
  rwa [String.ofList_toList] at hstarts

/-! ### Numerals -/

private theorem Breaks.not_digit {rest : List Char} (h : Breaks rest) {c : Char}
    (hc : rest.head? = some c) :
    ¬ Text.isDigit c = true := by
  intro hdigit
  have hname := isNameChar_of_isDigit hdigit
  rw [(h c hc).1] at hname
  contradiction

/-- A text that breaks a numeral off is no exponent. -/
theorem scanExponent_of_breaks {rest : List Char} (h : Breaks rest) : scanExponent rest = 0 := by
  cases rest with
  | nil => rfl
  | cons c cs =>
    have hmark : (c == 'e' || c == 'E') = false := by
      by_contra hmark
      rw [Bool.not_eq_false, Bool.or_eq_true, beq_iff_eq, beq_iff_eq] at hmark
      have hc := (h c rfl).1
      rcases hmark with rfl | rfl <;> exact absurd hc (by decide)
    simp [scanExponent, hmark]

/-- A mantissa and an exponent, which may be empty, are one token. -/
theorem starts_numeral {d : Char} {ds rest : List Char} {length exponent : Nat} {pointed : Bool}
    (hd : Text.isDigit d = true) (hmantissa : scanMantissa (d :: ds ++ rest) = (length, pointed))
    (hexponent : scanExponent ((d :: ds ++ rest).drop length) = exponent)
    (hlength : length + exponent = (d :: ds).length) :
    Starts (d :: ds ++ rest)
      (if exponent ≠ 0 then .double else if pointed then .decimal else .integer)
      (String.ofList (d :: ds)) rest := by
  have hblank : Text.isBlank d = false := by
    simp only [Text.isDigit, Bool.and_eq_true, decide_eq_true_eq] at hd
    simp only [Text.isBlank, Bool.or_eq_false_iff, Bool.and_eq_false_iff, decide_eq_false_iff_not,
      beq_eq_false_iff_ne]
    omega
  have hparen : d ≠ '(' := by
    rintro rfl
    exact absurd hd (by decide)
  refine starts_of_lexeme hblank (Or.inl hparen) ?_
  rw [List.cons_append] at hmantissa hexponent ⊢
  rw [lexeme, hd, Bool.true_or, if_pos rfl, scanNumeral, hmantissa]
  simp only [hexponent, hlength]

/-- Digits are one integer if what follows them breaks. -/
theorem starts_digits {d : Char} {ds rest : List Char} (hd : Text.isDigit d = true)
    (hds : ∀ c ∈ ds, Text.isDigit c = true) (hrest : Breaks rest) :
    Starts (d :: ds ++ rest) .integer (String.ofList (d :: ds)) rest := by
  have hall : ∀ c ∈ d :: ds, Text.isDigit c = true := List.forall_mem_cons.mpr ⟨hd, hds⟩
  have hmantissa : scanMantissa (d :: ds ++ rest) = ((d :: ds).length, false) := by
    rw [scanMantissa, hrest.takeWhile (fun _ h => isNameChar_of_isDigit h) hall, List.drop_left]
    split
    · next cs =>
      exact absurd rfl (hrest '.' rfl).2.1
    · rfl
  exact starts_numeral hd hmantissa (by rw [List.drop_left, scanExponent_of_breaks hrest])
    (Nat.add_zero _)

/-- The mantissa of a numeral with a point. -/
theorem scanMantissa_point {whole places rest : List Char}
    (hwhole : ∀ c ∈ whole, Text.isDigit c = true) (hplaces : ∀ c ∈ places, Text.isDigit c = true)
    (hrest : ∀ c, rest.head? = some c → ¬ Text.isDigit c = true) :
    scanMantissa (whole ++ '.' :: (places ++ rest)) = (whole.length + 1 + places.length, true) := by
  have hpoint : ∀ c, ('.' :: (places ++ rest)).head? = some c → ¬ Text.isDigit c = true := by
    rintro _ ⟨⟩
    decide
  rw [scanMantissa, takeWhile_append_of_head hwhole hpoint, List.drop_left]
  simp only [takeWhile_append_of_head hplaces hrest]

/-- Digits with a point among them are one decimal if what follows them breaks. -/
theorem starts_point {whole places rest : List Char} (hne : whole ≠ [])
    (hwhole : ∀ c ∈ whole, Text.isDigit c = true) (hplaces : ∀ c ∈ places, Text.isDigit c = true)
    (hrest : Breaks rest) :
    Starts (whole ++ '.' :: (places ++ rest)) .decimal (String.ofList (whole ++ '.' :: places)) rest := by
  have hmantissa := scanMantissa_point hwhole hplaces fun _ => hrest.not_digit
  have hlength : (whole ++ '.' :: places).length = whole.length + 1 + places.length := by
    rw [List.length_append, List.length_cons]
    omega
  have htext : whole ++ '.' :: (places ++ rest) = (whole ++ '.' :: places) ++ rest := by simp
  rw [htext, ← hlength] at hmantissa
  rw [htext]
  obtain ⟨d, ds, hcons⟩ := List.exists_cons_of_ne_nil hne
  rw [hcons, List.cons_append] at hmantissa ⊢
  exact starts_numeral (hwhole d (hcons ▸ List.mem_cons_self)) hmantissa
    (by rw [List.drop_left, scanExponent_of_breaks hrest]) (Nat.add_zero _)

/-- The parts of a numeral with an exponent: digits, with a point among them maybe, and the exponent,
which may be negative. -/
structure IsScientific (whole point sign digits : List Char) : Prop where
  whole_ne_nil : whole ≠ []
  isDigit_whole : ∀ c ∈ whole, Text.isDigit c = true
  point : point = [] ∨ ∃ places, point = '.' :: places ∧ ∀ c ∈ places, Text.isDigit c = true
  sign : sign = [] ∨ sign = ['-']
  digits_ne_nil : digits ≠ []
  isDigit_digits : ∀ c ∈ digits, Text.isDigit c = true

section

variable {whole point sign ds rest : List Char} (h : IsScientific whole point sign ds)

include h

/-- The exponent goes as far as its digits do. -/
theorem IsScientific.scanExponent (hrest : Breaks rest) :
    scanExponent ('e' :: (sign ++ (ds ++ rest))) = ('e' :: (sign ++ ds)).length := by
  have htake : (ds ++ rest).takeWhile Text.isDigit = ds :=
    takeWhile_append_of_head h.isDigit_digits fun _ => hrest.not_digit
  have hlength : ds.length ≠ 0 := fun heq => h.digits_ne_nil (List.length_eq_zero_iff.mp heq)
  rcases h.sign with rfl | rfl
  · obtain ⟨d, ds, rfl⟩ := List.exists_cons_of_ne_nil h.digits_ne_nil
    have hd := h.isDigit_digits d List.mem_cons_self
    have hplus : d ≠ '+' := by
      rintro rfl
      exact absurd hd (by decide)
    have hminus : d ≠ '-' := by
      rintro rfl
      exact absurd hd (by decide)
    rw [List.nil_append, List.nil_append]
    simp only [TreeQuery.scanExponent, List.cons_append, beq_self_eq_true, Bool.true_or, if_true,
      beq_false_of_ne hplus, beq_false_of_ne hminus, Bool.or_self, Bool.false_eq_true, if_false,
      List.drop_zero]
    rw [← List.cons_append, htake, if_neg hlength]
    simp only [List.length_cons]
    omega
  · simp only [TreeQuery.scanExponent, List.cons_append, List.nil_append, beq_self_eq_true,
      Bool.true_or, Bool.or_true, if_true, List.drop_succ_cons, List.drop_zero, htake, if_neg hlength,
      List.length_cons]
    omega

/-- The mantissa goes as far as the mark of the exponent. -/
theorem IsScientific.scanMantissa (cs : List Char) :
    ∃ pointed, scanMantissa (whole ++ (point ++ 'e' :: cs)) = ((whole ++ point).length, pointed) := by
  have hmark (c : Char) (hc : ('e' :: cs).head? = some c) : ¬ Text.isDigit c = true := by
    obtain rfl := Option.some.inj hc
    decide
  rcases h.point with rfl | ⟨places, rfl, hplaces⟩
  · refine ⟨false, ?_⟩
    rw [List.nil_append, TreeQuery.scanMantissa, takeWhile_append_of_head h.isDigit_whole hmark,
      List.drop_left]
    simp
  · refine ⟨true, ?_⟩
    rw [List.cons_append, scanMantissa_point h.isDigit_whole hplaces hmark, List.length_append,
      List.length_cons]
    simp only [Prod.mk.injEq, and_true]
    omega

/-- A numeral with an exponent is one double if what follows it breaks. -/
theorem starts_scientific (hrest : Breaks rest) :
    Starts (whole ++ (point ++ 'e' :: (sign ++ ds)) ++ rest) .double
      (String.ofList (whole ++ (point ++ 'e' :: (sign ++ ds)))) rest := by
  obtain ⟨pointed, hmantissa⟩ := h.scanMantissa (sign ++ (ds ++ rest))
  have hexponent := h.scanExponent hrest
  have htext : whole ++ (point ++ 'e' :: (sign ++ ds)) ++ rest =
      (whole ++ point) ++ 'e' :: (sign ++ (ds ++ rest)) := by simp
  have hlength : (whole ++ point).length + ('e' :: (sign ++ ds)).length =
      (whole ++ (point ++ 'e' :: (sign ++ ds))).length := by
    simp only [List.length_append]
    omega
  have hdrop : (whole ++ (point ++ 'e' :: (sign ++ ds)) ++ rest).drop (whole ++ point).length =
      'e' :: (sign ++ (ds ++ rest)) := by
    rw [htext, List.drop_left]
  rw [← List.append_assoc, ← htext] at hmantissa
  rw [← hdrop] at hexponent
  obtain ⟨d, cs, hcons⟩ := List.exists_cons_of_ne_nil h.whole_ne_nil
  rw [hcons, List.cons_append] at hmantissa hexponent hlength ⊢
  exact starts_numeral (h.isDigit_whole d (hcons ▸ List.mem_cons_self)) hmantissa hexponent hlength

end

/-! ### Strings -/

private theorem scanString_double {q : Char} {cs rest : List Char} (hrest : rest.head? ≠ some q) :
    scanString q (Text.double q cs ++ q :: rest) = some ((Text.double q cs).length + 1) := by
  induction cs with
  | nil =>
    cases rest with
    | nil => simp [Text.double, scanString]
    | cons d ds =>
      have hd : d ≠ q := fun h => hrest (congrArg some h)
      simp [Text.double, scanString, hd]
  | cons c cs ih =>
    by_cases hc : c = q
    · subst hc
      simp only [Text.double, if_true, List.cons_append, scanString, ih, Option.map_some,
        List.length_cons]
    · rw [Text.double, if_neg hc, List.cons_append, scanString.eq_def]
      simp only [if_neg hc, ih, Option.map_some, List.length_cons]

/-- A text in quotes is one string if no such quote follows it. -/
theorem starts_quote {q : Char} (hq : q = '\x22' ∨ q = '\x27') (cs : List Char) {rest : List Char}
    (hrest : rest.head? ≠ some q) :
    Starts (Text.quote q cs ++ rest) .string (String.ofList (Text.quote q cs)) rest := by
  have hquote : Text.isBlank q = false ∧ q ≠ '(' ∧ Text.isDigit q = false ∧ (q == '.') = false ∧
      (q == '\x22' || q == '\x27') = true := by
    rcases hq with rfl | rfl <;> decide
  obtain ⟨hblank, hparen, hdigit, hdot, hmark⟩ := hquote
  rw [Text.quote, List.cons_append]
  refine starts_of_lexeme hblank (Or.inl hparen) ?_
  rw [List.cons_append, List.append_assoc, List.singleton_append]
  simp only [lexeme, hdigit, hdot, hmark, scanString_double hrest, Bool.false_and, Bool.or_self,
    Bool.false_eq_true, if_true, if_false, List.length_cons, List.length_append, List.length_nil]

/-- A quoted text is read as one token. -/
theorem starts_quoted (s : String) {rest : List Char} (hrest : Breaks rest) :
    Starts ((Text.quoted s).toList ++ rest) .string (Text.quoted s) rest := by
  rw [Text.quoted, String.toList_ofList]
  exact starts_quote (Or.inl rfl) s.toList fun h => (hrest _ h).2.2 rfl

end TreeQuery
