import TreeQuery.Expr.Grouping
import TreeQuery.Proofs.Expr.Text
import TreeQuery.Proofs.Expr.WellFormed
import TreeQuery.Proofs.Parser.Types
import TreeQuery.Proofs.Token.Digits

/-!
# Commas in canonical texts

The text of an expression next to an operator or among commas closes every bracket that it opens, and
has no comma outside of them. So the first comma behind it is seen, and a sequence in parentheses is
known for one before it is read.
-/

namespace TreeQuery

variable {cs ds rest : List Char} {depth : Nat}

/-! ### Single characters -/

/-- Characters that neither group nor quote. -/
def IsOrdinary (c : Char) : Prop :=
  c ≠ '\x22' ∧ c ≠ '\x27' ∧ isOpening c = false ∧ isClosing c = false ∧ c ≠ ','

instance (c : Char) : Decidable (IsOrdinary c) := inferInstanceAs (Decidable (_ ∧ _))

/-- The characters that group or quote. -/
def groupingChars : List Char := ['\x22', '\x27', '(', '[', '\x7b', ')', ']', '\x7d', ',']

/-- A character that opens, closes, quotes or parts nothing is ordinary. -/
theorem isOrdinary_of_not_mem {c : Char} (h : c ∉ groupingChars) : IsOrdinary c := by
  simp only [groupingChars, List.mem_cons, List.not_mem_nil, or_false, not_or] at h
  obtain ⟨hdouble, hsingle, hparen, hbracket, hbrace, hparen', hbracket', hbrace', hcomma⟩ := h
  exact ⟨hdouble, hsingle, by simp [isOpening, hparen, hbracket, hbrace],
    by simp [isClosing, hparen', hbracket', hbrace'], hcomma⟩

/-- Characters of a kind that none of those has are ordinary. -/
theorem isOrdinary_of_kind {p : Char → Bool} (hp : ∀ d ∈ groupingChars, p d = false) {c : Char}
    (h : p c = true) : IsOrdinary c := by
  refine isOrdinary_of_not_mem fun hmem => ?_
  rw [hp c hmem] at h
  contradiction

/-- What is said of the characters of a text is decided along the text. -/
instance (priority := high) decidableForallChar {p : Char → Prop} [DecidablePred p] (cs : List Char) :
    Decidable (∀ c ∈ cs, p c) := List.decidableBAll p cs

/-- Outside of comments and strings, where no comment begins. -/
theorem commaAhead_cons {c : Char} (h : c ≠ '(' ∨ cs.head? ≠ some ':') :
    commaAhead .code depth (c :: cs) =
      if c == '\x22' || c == '\x27' then commaAhead (.quoted c) depth cs
      else if isOpening c then commaAhead .code (depth + 1) cs
      else if isClosing c then
        match depth with
        | 0 => false
        | depth + 1 => commaAhead .code depth cs
      else if c == ',' && depth == 0 then true
      else commaAhead .code depth cs := by
  rw [commaAhead.eq_def]
  split
  · contradiction
  · contradiction
  · contradiction
  · contradiction
  · contradiction
  · next heq =>
    obtain ⟨rfl, rfl⟩ := List.cons.inj heq
    exact (h.elim (fun h => h rfl) fun h => h rfl).elim
  · next heq =>
    obtain ⟨rfl, rfl⟩ := List.cons.inj heq
    rfl
  · contradiction

/-- An ordinary character makes no difference to the scan. -/
theorem commaAhead_ordinary {c : Char} (h : IsOrdinary c) :
    commaAhead .code depth (c :: cs) = commaAhead .code depth cs := by
  obtain ⟨hdouble, hsingle, hopening, hclosing, hcomma⟩ := h
  have hparen : c ≠ '(' := by
    rintro rfl
    contradiction
  rw [commaAhead_cons (Or.inl hparen)]
  simp [hdouble, hsingle, hopening, hclosing, hcomma]

/-- Neither does a text of them. -/
theorem commaAhead_ordinaries (h : ∀ c ∈ cs, IsOrdinary c) :
    commaAhead .code depth (cs ++ rest) = commaAhead .code depth rest := by
  induction cs with
  | nil => rfl
  | cons c cs ih =>
    rw [List.forall_mem_cons] at h
    rw [List.cons_append, commaAhead_ordinary h.1, ih h.2]

/-- Behind an opening bracket that starts no comment the scan is one bracket deeper. -/
theorem commaAhead_opening {c : Char} (hc : isOpening c = true) (h : c ≠ '(' ∨ cs.head? ≠ some ':') :
    commaAhead .code depth (c :: cs) = commaAhead .code (depth + 1) cs := by
  have hquote : (c == '\x22' || c == '\x27') = false := by
    simp only [isOpening, Bool.or_eq_true, beq_iff_eq] at hc
    rcases hc with (rfl | rfl) | rfl <;> rfl
  rw [commaAhead_cons h, hquote, hc]
  rfl

/-- Behind a closing bracket the scan is one bracket less deep. -/
theorem commaAhead_closing {c : Char} (hc : isClosing c = true) :
    commaAhead .code (depth + 1) (c :: cs) = commaAhead .code depth cs := by
  have hcases : c = ')' ∨ c = ']' ∨ c = '\x7d' := by
    simpa [isClosing, or_assoc] using hc
  rcases hcases with rfl | rfl | rfl <;> rw [commaAhead_cons (Or.inl (by decide))] <;> rfl

/-- A bracket that closes the group around the text ends the search. -/
theorem commaAhead_closing_zero {c : Char} (hc : isClosing c = true) :
    commaAhead .code 0 (c :: cs) = false := by
  have hcases : c = ')' ∨ c = ']' ∨ c = '\x7d' := by
    simpa [isClosing, or_assoc] using hc
  rcases hcases with rfl | rfl | rfl <;> rw [commaAhead_cons (Or.inl (by decide))] <;> rfl

private theorem commaAhead_comma : commaAhead .code (depth + 1) (',' :: cs) =
    commaAhead .code (depth + 1) cs := by
  rw [commaAhead_cons (Or.inl (by decide))]
  rfl

/-- Inside a string only its quotes count. -/
theorem commaAhead_quoted (hrest : rest.head? ≠ some '\x22') :
    commaAhead (.quoted '\x22') depth (Text.double '\x22' cs ++ '\x22' :: rest) =
      commaAhead .code depth rest := by
  induction cs with
  | nil =>
    cases rest with
    | nil => simp [Text.double, commaAhead]
    | cons d ds =>
      have hd : d ≠ '\x22' := fun h => hrest (congrArg some h)
      simp [Text.double, commaAhead, hd]
  | cons c cs ih =>
    by_cases hc : c = '\x22'
    · subst hc
      simp only [Text.double, if_true, List.cons_append]
      rw [commaAhead]
      simpa using ih
    · rw [Text.double, if_neg hc, List.cons_append, commaAhead.eq_def]
      simp only [if_neg hc]
      exact ih

/-! ### Texts -/

/-- A text that closes what it opens and has no comma of its own. -/
def Closes (cs : List Char) : Prop :=
  ∀ depth rest, Breaks rest → commaAhead .code depth (cs ++ rest) = commaAhead .code depth rest

/-- A text that closes what it opens; a comma of its own stands between brackets around it. -/
def ClosesInside (cs : List Char) : Prop :=
  ∀ depth rest, Breaks rest →
    commaAhead .code (depth + 1) (cs ++ rest) = commaAhead .code (depth + 1) rest

/-- A text that closes its brackets does so inside others too. -/
theorem Closes.inside (h : Closes cs) : ClosesInside cs := fun depth => h (depth + 1)

/-- A text of ordinary characters opens no brackets. -/
theorem closes_ordinaries (h : ∀ c ∈ cs, IsOrdinary c) : Closes cs :=
  fun _ _ _ => commaAhead_ordinaries h

/-- Brackets close what stands between them. -/
theorem Closes.brackets {c d : Char} (hc : isOpening c = true) (hd : isClosing d = true)
    (hhead : c ≠ '(' ∨ (cs ++ [d]).head? ≠ some ':') (hbreaks : Breaks [d]) (h : ClosesInside cs) :
    Closes (c :: (cs ++ [d])) := by
  intro depth rest _
  have hhead' : c ≠ '(' ∨ (cs ++ d :: rest).head? ≠ some ':' := by
    refine hhead.imp_right fun h => ?_
    cases cs with
    | nil => exact h
    | cons _ _ => exact h
  have hbreaks' : Breaks (d :: rest) := breaks_cons (hbreaks d rfl) rest
  rw [List.cons_append, List.append_assoc, List.singleton_append, commaAhead_opening hc hhead',
    h _ _ hbreaks', commaAhead_closing hd]

/-- Ordinary characters in front open no brackets. -/
theorem Closes.ordinaries_append (h : ∀ c ∈ cs, IsOrdinary c) (hds : Closes ds) :
    Closes (cs ++ ds) := by
  intro depth rest hrest
  rw [List.append_assoc, commaAhead_ordinaries h, hds _ _ hrest]

/-- Texts among commas, between brackets. -/
theorem closesInside_commas {ι : Type} {text : ι → List Char} {is : List ι}
    (h : ∀ i ∈ is, ClosesInside (text i)) : ClosesInside (afterCommas text is) := by
  induction is with
  | nil => exact fun _ _ _ => rfl
  | cons i is ih =>
    rw [List.forall_mem_cons] at h
    intro depth rest hrest
    have hbreaks : Breaks (afterCommas text is ++ rest) := by
      cases is with
      | nil => exact hrest
      | cons j js => exact breaks_cons (by decide) _
    have htext : afterCommas text (i :: is) ++ rest =
        ',' :: ' ' :: (text i ++ (afterCommas text is ++ rest)) := by
      simp [afterCommas]
    rw [htext, commaAhead_comma, commaAhead_ordinary (by decide), h.1 _ _ hbreaks, ih h.2 _ _ hrest]

/-! ### Names, numerals and types -/

/-- The characters of names are ordinary. -/
theorem isOrdinary_of_isNameChar {c : Char} (h : isNameChar c = true) : IsOrdinary c :=
  isOrdinary_of_kind (by decide) h

/-- Names are ordinary texts. -/
theorem IsName.ordinary {cs : List Char} (h : IsName cs) : ∀ c ∈ cs, IsOrdinary c :=
  fun c hc => isOrdinary_of_isNameChar (h.forall_isNameChar c hc)

/-- So are qualified names. -/
theorem QName.WellFormed.ordinary {n : QName} (h : n.WellFormed) :
    ∀ c ∈ n.render.toList, IsOrdinary c := by
  obtain ⟨hlocal, ⟨-, htext⟩ | ⟨q, -, hq, htext⟩⟩ := h.toList_render
  · rw [htext]
    exact hlocal.ordinary
  · rw [htext]
    exact List.forall_mem_append.mpr ⟨hq.ordinary,
      List.forall_mem_cons.mpr ⟨by decide, hlocal.ordinary⟩⟩

/-- Digits are ordinary. -/
theorem ordinary_toDigits (n : Nat) : ∀ c ∈ Nat.toDigits 10 n, IsOrdinary c := fun _ hc =>
  isOrdinary_of_isNameChar (isNameChar_of_isDigit (isDigit_of_mem_toDigits hc))

/-- The text of an integer without a sign is ordinary. -/
theorem ordinary_renderInteger {i : Int64} (h : 0 ≤ i.toInt) :
    ∀ c ∈ (Integer.render i).toList, IsOrdinary c := by
  rw [toList_renderInteger h]
  exact ordinary_toDigits _

/-- The text of a node test closes the brackets that it opens. -/
theorem KindTest.closes_render {test : KindTest} (hformed : test.WellFormed)
    (hreadable : test.Readable) : Closes test.render.toList := by
  have hargument : ∀ c ∈ test.argument.toList, IsOrdinary c := by
    cases test with
    | anyNode | text | comment | document => simp [argument]
    | processingInstruction target =>
      cases target with
      | none => simp [argument]
      | some target =>
        rcases hreadable with rfl | htarget
        · simp [argument]
        · exact (isName_of_isSimpleName htarget).ordinary
    | element name | «attribute» name =>
      cases name with
      | none => simp [argument]
      | some n => exact QName.WellFormed.ordinary hformed
  have htext := test.toList_render []
  rw [List.append_nil] at htext
  rw [htext]
  refine Closes.ordinaries_append (isName_of_isSimpleName (isSimpleName_keyword test)).ordinary ?_
  exact Closes.brackets rfl rfl (Or.inr (test.head_argument hformed hreadable []))
    (breaks_cons (by decide) []) (closes_ordinaries hargument).inside

private theorem ItemType.closes_render {type : ItemType} (hformed : type.WellFormed)
    (hreadable : type.Readable) : Closes type.render.toList := by
  have hparen (word inner : String) (hword : ∀ c ∈ word.toList, IsOrdinary c)
      (hinner : inner = "" ∨ inner = "*") : Closes (word ++ "(" ++ inner ++ ")").toList := by
    have htext : (word ++ "(" ++ inner ++ ")").toList = word.toList ++ '(' :: (inner.toList ++ [')']) := by
      simp
    rw [htext]
    refine Closes.ordinaries_append hword ?_
    rcases hinner with rfl | rfl
    · exact Closes.brackets rfl rfl (Or.inr (by decide)) (breaks_cons (by decide) [])
        (closes_ordinaries (by decide)).inside
    · exact Closes.brackets rfl rfl (Or.inr (by decide)) (breaks_cons (by decide) [])
        (closes_ordinaries (by decide)).inside
  cases type with
  | item => exact hparen "item" "" (by decide) (Or.inl rfl)
  | map => exact hparen "map" "*" (by decide) (Or.inr rfl)
  | array => exact hparen "array" "*" (by decide) (Or.inr rfl)
  | function => exact hparen "function" "*" (by decide) (Or.inr rfl)
  | atomic type => exact closes_ordinaries (by cases type <;> decide)
  | node test => exact KindTest.closes_render hformed hreadable

/-- The text of a type closes the brackets that it opens. -/
theorem SequenceType.closes_render {type : SequenceType} (hformed : type.WellFormed)
    (hreadable : type.Readable) : Closes type.render.toList := by
  cases type with
  | empty =>
    have htext : SequenceType.empty.render.toList = "empty-sequence".toList ++ '(' :: ([] ++ [')']) := by
      change ("empty-sequence" ++ "()").toList = _
      simp
    rw [htext]
    exact Closes.ordinaries_append (by decide) (Closes.brackets rfl rfl (Or.inr (by decide))
      (breaks_cons (by decide) []) (fun _ _ _ => rfl))
  | items type occurrence =>
    rw [SequenceType.render, String.toList_append]
    have htype : Closes type.render.toList := ItemType.closes_render hformed hreadable
    intro depth rest hrest
    have hmark : ∀ c ∈ occurrence.render.toList, IsOrdinary c := by
      cases occurrence <;> decide
    have hbreaks : Breaks (occurrence.render.toList ++ rest) := by
      cases occurrence with
      | one => exact hrest
      | optional | many | oneOrMore => exact breaks_cons (by decide) rest
    rw [List.append_assoc, htype _ _ hbreaks, commaAhead_ordinaries hmark]

end TreeQuery
