import TreeQuery.Number.Binary.Text
import TreeQuery.Proofs.Number.Value
import TreeQuery.Proofs.Token.Digits

/-!
# Numerals

The texts that numbers are read from have an optional sign and digits behind it, with at most one point
for decimals and doubles, and for doubles with an exponent too. An integer is read from exactly such a
text, if it fits. A double is also read from words for an infinite number and for what is none: in
capitals as they are written, and behind a sign in any case, but for one.
-/

namespace TreeQuery

/-! ### Signs -/

/-- An optional sign. -/
def IsSign (cs : List Char) : Prop := cs = [] ∨ cs = ['+'] ∨ cs = ['-']

/-- Whether a text starts with a minus sign, and what stands behind its sign. -/
def splitSign : List Char → Bool × List Char
  | '-' :: cs => (true, cs)
  | '+' :: cs => (false, cs)
  | cs => (false, cs)

/-- A text that starts with no sign. -/
def Unsigned (cs : List Char) : Prop := cs.head? ≠ some '-' ∧ cs.head? ≠ some '+'

private theorem splitSign_of_unsigned {cs : List Char} (h : Unsigned cs) : splitSign cs =
    (false, cs) := by
  unfold splitSign
  split
  · exact absurd rfl h.1
  · exact absurd rfl h.2
  · rfl

/-- Every reader that looks for a sign first goes on with what `splitSign` finds. -/
theorem eq_splitSign {α : Type} {read : List Char → α} {f : Bool → List Char → α}
    (hminus : ∀ cs, read ('-' :: cs) = f true cs) (hplus : ∀ cs, read ('+' :: cs) = f false cs)
    (hnone : ∀ cs, (∀ ds, cs = '-' :: ds → False) → (∀ ds, cs = '+' :: ds → False) →
      read cs = f false cs) (cs : List Char) :
    read cs = f (splitSign cs).1 (splitSign cs).2 := by
  unfold splitSign
  split
  · exact hminus _
  · exact hplus _
  · next h h' => exact hnone cs h h'

/-- What is asked of a text behind its sign is asked of what stands behind one of the three signs. -/
theorem splitSign_iff {P : Bool → List Char → Prop} (hP : ∀ negative cs, P negative cs → Unsigned cs)
    {cs : List Char} : P (splitSign cs).1 (splitSign cs).2 ↔
      ∃ sign body, IsSign sign ∧ P (sign == ['-']) body ∧ cs = sign ++ body := by
  constructor
  · intro h
    unfold splitSign at h
    split at h
    · exact ⟨['-'], _, .inr (.inr rfl), h, rfl⟩
    · exact ⟨['+'], _, .inr (.inl rfl), h, rfl⟩
    · exact ⟨[], _, .inl rfl, h, rfl⟩
  · rintro ⟨sign, body, hsign, hbody, rfl⟩
    rcases hsign with rfl | rfl | rfl
    · rw [List.nil_append, splitSign_of_unsigned (hP _ _ hbody)]
      exact hbody
    · exact hbody
    · exact hbody

/-! ### Digits and points -/

/-- One digit or more. -/
def IsDigits (cs : List Char) : Prop := cs ≠ [] ∧ ∀ c ∈ cs, Text.isDigit c = true

/-- Digits, one at least, and at most one point. -/
structure IsPointed (cs : List Char) : Prop where
  digit_or_point : ∀ c ∈ cs, Text.isDigit c = true ∨ c = '.'
  count_point_le : cs.count '.' ≤ 1
  exists_digit : ∃ c ∈ cs, Text.isDigit c = true

/-- A text that starts with a digit or a point has no sign. -/
theorem unsigned_of_head {cs : List Char} (h : ∀ c, cs.head? = some c → Text.isDigit c = true ∨ c = '.') :
    Unsigned cs := by
  constructor
  · intro hc
    exact absurd (h '-' hc) (by decide)
  · intro hc
    exact absurd (h '+' hc) (by decide)

private theorem IsDigits.unsigned {cs : List Char} (h : IsDigits cs) : Unsigned cs :=
  unsigned_of_head fun c hc => .inl (h.2 c (List.mem_of_mem_head? hc))

private theorem IsPointed.unsigned {cs : List Char} (h : IsPointed cs) : Unsigned cs :=
  unsigned_of_head fun c hc => h.digit_or_point c (List.mem_of_mem_head? hc)

/-- Digits with at most one point are digits, or digits in front of the point and behind it. -/
theorem isPointed_iff {cs : List Char} : IsPointed cs ↔ IsDigits cs ∨
    ∃ whole places, cs = whole ++ '.' :: places ∧ (∀ c ∈ whole, Text.isDigit c = true) ∧
      (∀ c ∈ places, Text.isDigit c = true) ∧ (whole ≠ [] ∨ places ≠ []) := by
  constructor
  · rintro ⟨hall, hcount, d, hd, hdigit⟩
    by_cases hpoint : '.' ∈ cs
    · obtain ⟨whole, places, rfl⟩ := List.append_of_mem hpoint
      rw [List.count_append, List.count_cons_self] at hcount
      have hnone {ds : List Char} (hsub : ∀ c ∈ ds, c ∈ whole ++ '.' :: places) (hzero : ds.count '.' = 0) :
          ∀ c ∈ ds, Text.isDigit c = true := by
        intro c hc
        refine (hall c (hsub c hc)).resolve_right ?_
        rintro rfl
        exact List.count_eq_zero.mp hzero hc
      refine .inr ⟨whole, places, rfl, hnone (fun c hc => List.mem_append_left _ hc) (by omega),
        hnone (fun c hc => List.mem_append_right _ (List.mem_cons_of_mem _ hc)) (by omega), ?_⟩
      rcases List.mem_append.mp hd with hd | hd
      · exact .inl (List.ne_nil_of_mem hd)
      · rcases List.mem_cons.mp hd with rfl | hd
        · exact absurd hdigit (by decide)
        · exact .inr (List.ne_nil_of_mem hd)
    · refine .inl ⟨List.ne_nil_of_mem hd, fun c hc => (hall c hc).resolve_right ?_⟩
      rintro rfl
      exact hpoint hc
  · have hcount {ds : List Char} (hds : ∀ c ∈ ds, Text.isDigit c = true) : ds.count '.' = 0 := by
      rw [List.count_eq_zero]
      exact fun hmem => absurd (hds '.' hmem) (by decide)
    rintro (⟨hne, hds⟩ | ⟨whole, places, rfl, hwhole, hplaces, hne⟩)
    · obtain ⟨d, hd⟩ := List.exists_mem_of_ne_nil _ hne
      exact ⟨fun c hc => .inl (hds c hc), by rw [hcount hds]; exact Nat.zero_le 1, d, hd, hds d hd⟩
    · refine ⟨?_, ?_, ?_⟩
      · intro c hc
        rcases List.mem_append.mp hc with hc | hc
        · exact .inl (hwhole c hc)
        · exact (List.mem_cons.mp hc).symm.imp_left (hplaces c)
      · rw [List.count_append, List.count_cons_self, hcount hwhole, hcount hplaces]
      · rcases hne with hne | hne
        · obtain ⟨d, hd⟩ := List.exists_mem_of_ne_nil _ hne
          exact ⟨d, List.mem_append_left _ hd, hwhole d hd⟩
        · obtain ⟨d, hd⟩ := List.exists_mem_of_ne_nil _ hne
          exact ⟨d, List.mem_append_right _ (List.mem_cons_of_mem _ hd), hplaces d hd⟩

/-! ### Integers -/

/-- What the readers of digits refuse. -/
theorem not_isDigits_iff {cs : List Char} :
    (cs.isEmpty || !cs.all Text.isDigit) = true ↔ ¬ IsDigits cs := by
  rw [IsDigits, not_and_or, not_not, Bool.or_eq_true, List.isEmpty_iff, Bool.not_eq_true',
    ← Bool.not_eq_true, List.all_eq_true]

private theorem readNat?_eq_some_iff {cs : List Char} {n : Nat} :
    Integer.readNat? cs = some n ↔ IsDigits cs ∧ Integer.ofDigits cs = n := by
  rw [Integer.readNat?]
  split
  · next h =>
    exact iff_of_false (Option.some_ne_none n).symm fun hread => not_isDigits_iff.mp h hread.1
  · next h =>
    rw [not_isDigits_iff, not_not] at h
    rw [Option.some_inj, and_iff_right h]

private theorem Integer.read?_eq (cs : List Char) : Integer.read? cs =
    (Integer.readNat? (splitSign cs).2).bind fun n =>
      Integer.fit? (Decimal.signedBy (splitSign cs).1 n) :=
  eq_splitSign (f := fun negative cs => (Integer.readNat? cs).bind fun n =>
    Integer.fit? (Decimal.signedBy negative n)) (fun _ => rfl) (fun _ => rfl) Integer.read?.eq_3 cs

/-- An integer is read from an optional sign and digits, and has the value that they denote. -/
theorem Integer.read?_eq_some_iff {cs : List Char} {i : Int64} :
    Integer.read? cs = some i ↔ ∃ sign digits, IsSign sign ∧ IsDigits digits ∧
      cs = sign ++ digits ∧ i.toInt = Decimal.signedBy (sign == ['-']) (Integer.ofDigits digits) := by
  let P (negative : Bool) (cs : List Char) : Prop := IsDigits cs ∧
    i.toInt = Decimal.signedBy negative (Integer.ofDigits cs)
  have hread : Integer.read? cs = some i ↔ P (splitSign cs).1 (splitSign cs).2 := by
    simp only [Integer.read?_eq, Option.bind_eq_some_iff, readNat?_eq_some_iff,
      Integer.fit?_eq_some_iff, P, and_assoc, exists_and_left, exists_eq_left']
    exact and_congr_right' eq_comm
  rw [hread, splitSign_iff (P := P) fun _ _ h => h.1.unsigned]
  simp only [P]
  grind

/-! ### Doubles -/

/-- An exponent: its mark, an optional sign and digits. -/
def IsExponent (cs : List Char) : Prop :=
  ∃ mark sign digits, isExponentMark mark = true ∧ IsSign sign ∧ IsDigits digits ∧
    cs = mark :: (sign ++ digits)

/-- Digits with at most one point, and perhaps an exponent. -/
def IsMagnitude (cs : List Char) : Prop :=
  ∃ mantissa exponent, IsPointed mantissa ∧ (exponent = [] ∨ IsExponent exponent) ∧
    cs = mantissa ++ exponent

/-- The numeral of a double: an optional sign, digits with at most one point, and perhaps an exponent. -/
def IsDoubleNumeral (cs : List Char) : Prop :=
  ∃ sign magnitude, IsSign sign ∧ IsMagnitude magnitude ∧ cs = sign ++ magnitude

private theorem readExponentDigits?_isSome_iff {cs : List Char} :
    (readExponentDigits? cs).isSome = true ↔ IsDigits cs := by
  rw [readExponentDigits?]
  split
  · next h => exact iff_of_false (by simp) (not_isDigits_iff.mp h)
  · next h => exact iff_of_true rfl (not_not.mp (not_isDigits_iff.not.mp h))

private theorem readExponent?_eq (cs : List Char) : readExponent? cs =
    (readExponentDigits? (splitSign cs).2).map fun n => Decimal.signedBy (splitSign cs).1 n :=
  eq_splitSign (f := fun negative cs =>
      (readExponentDigits? cs).map fun n => Decimal.signedBy negative n)
    (fun cs => by rw [readExponent?]; cases readExponentDigits? cs <;> rfl)
    (fun cs => by rw [readExponent?]; cases readExponentDigits? cs <;> rfl)
    (fun cs h h' => by rw [readExponent?.eq_3 cs h h']; cases readExponentDigits? cs <;> rfl) cs

private theorem readExponent?_isSome_iff {cs : List Char} : (readExponent? cs).isSome = true ↔
    ∃ sign digits, IsSign sign ∧ IsDigits digits ∧ cs = sign ++ digits := by
  rw [readExponent?_eq, Option.isSome_map, readExponentDigits?_isSome_iff]
  exact splitSign_iff (P := fun _ cs => IsDigits cs) fun _ _ h => h.unsigned

/-- Behind the mantissa there is an exponent or nothing. -/
theorem isSome_exponent_iff {cs : List Char} {x : Float} {read : Int → Float} :
    (match cs with
      | [] => some x
      | c :: cs => if isExponentMark c then (readExponent? cs).map read else none).isSome = true ↔
      cs = [] ∨ IsExponent cs := by
  cases cs with
  | nil => exact iff_of_true rfl (.inl rfl)
  | cons c cs =>
    dsimp only
    split
    · next hmark =>
      rw [Option.isSome_map, readExponent?_isSome_iff]
      constructor
      · rintro ⟨sign, digits, hsign, hdigits, rfl⟩
        exact .inr ⟨c, sign, digits, hmark, hsign, hdigits, rfl⟩
      · rintro (h | ⟨_, sign, digits, -, hsign, hdigits, h⟩)
        · exact absurd h (List.cons_ne_nil c cs)
        · exact ⟨sign, digits, hsign, hdigits, (List.cons.inj h).2⟩
    · next hmark =>
      refine iff_of_false (by simp) ?_
      rintro (h | ⟨mark, _, _, hmark', -, -, h⟩)
      · exact absurd h (List.cons_ne_nil c cs)
      · exact hmark ((List.cons.inj h).1 ▸ hmark')

/-- A text that does not go on with a digit. -/
def NoDigit (cs : List Char) : Prop := ∀ c, cs.head? = some c → ¬ Text.isDigit c = true

private theorem dropWhile_append_of_head {cs rest : List Char} (hcs : ∀ c ∈ cs, Text.isDigit c = true)
    (hrest : NoDigit rest) : (cs ++ rest).dropWhile Text.isDigit = rest := by
  rw [List.dropWhile_append_of_pos hcs]
  cases rest with
  | nil => rfl
  | cons c rest => exact List.dropWhile_cons_of_neg (hrest c rfl)

/-- An exponent goes on with neither a digit nor a point. -/
theorem head_exponent {cs : List Char} (h : cs = [] ∨ IsExponent cs) :
    NoDigit cs ∧ cs.head? ≠ some '.' := by
  rcases h with rfl | ⟨mark, sign, digits, hmark, -, -, rfl⟩
  · exact ⟨nofun, nofun⟩
  · rw [isExponentMark, Bool.or_eq_true, beq_iff_eq, beq_iff_eq] at hmark
    rcases hmark with rfl | rfl <;> exact ⟨by simp [NoDigit]; decide, by simp⟩

section

variable {negative : Bool} {whole places rest : List Char}
  (hwhole : ∀ c ∈ whole, Text.isDigit c = true) (hrest : NoDigit rest)

include hwhole hrest

private theorem readMagnitude?_whole (hpoint : rest.head? ≠ some '.') :
    (readMagnitude? negative (whole ++ rest)).isSome = true ↔
      whole ≠ [] ∧ (rest = [] ∨ IsExponent rest) := by
  simp only [readMagnitude?, takeWhile_append_of_head hwhole hrest,
    dropWhile_append_of_head hwhole hrest, beq_false_of_ne hpoint, Bool.false_eq_true, if_false,
    List.isEmpty_nil, Bool.and_true, List.isEmpty_iff]
  split
  · next h => exact iff_of_false (by simp) fun hread => hread.1 h
  · next h => exact isSome_exponent_iff.trans (and_iff_right h).symm

private theorem readMagnitude?_pointed (hplaces : ∀ c ∈ places, Text.isDigit c = true) :
    (readMagnitude? negative (whole ++ '.' :: (places ++ rest))).isSome = true ↔
      (whole ≠ [] ∨ places ≠ []) ∧ (rest = [] ∨ IsExponent rest) := by
  have hpoint : NoDigit ('.' :: (places ++ rest)) := by
    simp [NoDigit]
    decide
  simp only [readMagnitude?, takeWhile_append_of_head hwhole hpoint,
    dropWhile_append_of_head hwhole hpoint, List.head?_cons, List.tail_cons, beq_self_eq_true, if_true,
    takeWhile_append_of_head hplaces hrest, dropWhile_append_of_head hplaces hrest,
    Bool.and_eq_true, List.isEmpty_iff]
  split
  · next h => exact iff_of_false (by simp) fun hread => not_or.mpr ⟨not_not.mpr h.1, not_not.mpr h.2⟩ hread.1
  · next h => exact isSome_exponent_iff.trans (and_iff_right (not_and_or.mp h)).symm

end

/-- Every text is digits and what stands behind them. -/
theorem exists_digits_append (cs : List Char) :
    ∃ digits rest, cs = digits ++ rest ∧ (∀ c ∈ digits, Text.isDigit c = true) ∧ NoDigit rest :=
  ⟨cs.takeWhile Text.isDigit, cs.dropWhile Text.isDigit, List.takeWhile_append_dropWhile.symm,
    fun _ hc => List.mem_takeWhile_imp hc, by
      intro c hc
      have hhead := List.head?_dropWhile_not Text.isDigit cs
      rw [hc] at hhead
      exact Bool.not_eq_true _ ▸ hhead⟩

private theorem readMagnitude?_isSome_iff {negative : Bool} {cs : List Char} :
    (readMagnitude? negative cs).isSome = true ↔ IsMagnitude cs := by
  constructor
  · intro h
    obtain ⟨whole, rest, rfl, hwhole, hrest⟩ := exists_digits_append cs
    by_cases hpoint : rest.head? = some '.'
    · obtain ⟨rest, rfl⟩ := List.head?_eq_some_iff.mp hpoint
      obtain ⟨places, rest, rfl, hplaces, hrest⟩ := exists_digits_append rest
      obtain ⟨hne, hexponent⟩ := (readMagnitude?_pointed hwhole hrest hplaces).mp h
      exact ⟨whole ++ '.' :: places, rest,
        isPointed_iff.mpr (.inr ⟨whole, places, rfl, hwhole, hplaces, hne⟩), hexponent, by simp⟩
    · obtain ⟨hne, hexponent⟩ := (readMagnitude?_whole hwhole hrest hpoint).mp h
      exact ⟨whole, rest, isPointed_iff.mpr (.inl ⟨hne, hwhole⟩), hexponent, rfl⟩
  · rintro ⟨mantissa, exponent, hmantissa, hexponent, rfl⟩
    obtain ⟨hrest, hpoint⟩ := head_exponent hexponent
    rcases isPointed_iff.mp hmantissa with ⟨hne, hwhole⟩ | ⟨whole, places, rfl, hwhole, hplaces, hne⟩
    · exact (readMagnitude?_whole hwhole hrest hpoint).mpr ⟨hne, hexponent⟩
    · rw [List.append_assoc, List.cons_append]
      exact (readMagnitude?_pointed hwhole hrest hplaces).mpr ⟨hne, hexponent⟩

/-! ### Words -/

/-- The words for an infinite number and for what is none, in lower case. -/
def numberWords : List String := ["inf", "infinity", "nan"]

/-- The characters of a text in lower case, as far as they are ASCII letters. -/
def lowered (cs : List Char) : String := String.ofList (cs.map asciiLower)

private theorem readUnsigned?_isSome_iff {negative : Bool} {cs : List Char} :
    (readUnsigned? negative cs).isSome = true ↔ IsMagnitude cs ∨ lowered cs ∈ numberWords := by
  have hwords : lowered cs ∈ numberWords ↔ (cs.map asciiLower = ['i', 'n', 'f'] ∨
      cs.map asciiLower = ['i', 'n', 'f', 'i', 'n', 'i', 't', 'y']) ∨
      cs.map asciiLower = ['n', 'a', 'n'] := by
    have hword (ds : List Char) : lowered cs = String.ofList ds ↔ cs.map asciiLower = ds :=
      String.ofList_inj
    simp only [numberWords, List.mem_cons, List.not_mem_nil, or_false, or_assoc]
    exact or_congr (hword _) (or_congr (hword _) (hword _))
  rw [readUnsigned?]
  split
  · next h => exact iff_of_true rfl (.inr (hwords.mpr (.inl h)))
  · next hinfinite =>
    split
    · next h => exact iff_of_true rfl (.inr (hwords.mpr (.inr h)))
    · next hnan =>
      rw [readMagnitude?_isSome_iff, or_iff_left fun h => (hwords.mp h).elim hinfinite hnan]

private theorem readNumber?_eq (cs : List Char) :
    readNumber? cs = readUnsigned? (splitSign cs).1 (splitSign cs).2 :=
  eq_splitSign (fun _ => rfl) (fun _ => rfl) readNumber?.eq_3 cs

private theorem IsMagnitude.unsigned {cs : List Char} (h : IsMagnitude cs) : Unsigned cs := by
  obtain ⟨mantissa, exponent, hmantissa, -, rfl⟩ := h
  obtain ⟨d, hd, -⟩ := hmantissa.exists_digit
  rw [Unsigned, List.head?_append_of_ne_nil _ (List.ne_nil_of_mem hd)]
  exact hmantissa.unsigned

private theorem unsigned_of_lowered {cs : List Char} (h : lowered cs ∈ numberWords) : Unsigned cs := by
  have hwords : ∀ word ∈ numberWords, word.toList.head? ≠ some '-' ∧ word.toList.head? ≠ some '+' := by
    decide
  have hhead : (lowered cs).toList.head? = cs.head?.map asciiLower := by
    rw [lowered, String.toList_ofList, List.head?_map]
  obtain ⟨hminus, hplus⟩ := hwords _ h
  rw [hhead] at hminus hplus
  exact ⟨fun hc => hminus (by rw [hc]; rfl), fun hc => hplus (by rw [hc]; rfl)⟩

/-- Behind an optional sign there is a magnitude, or a word in any case. -/
theorem readNumber?_isSome_iff {cs : List Char} : (readNumber? cs).isSome = true ↔
    IsDoubleNumeral cs ∨
      ∃ sign word, IsSign sign ∧ lowered word ∈ numberWords ∧ cs = sign ++ word := by
  rw [readNumber?_eq, readUnsigned?_isSome_iff,
    splitSign_iff (P := fun _ cs => IsMagnitude cs ∨ lowered cs ∈ numberWords)
      fun _ _ h => h.elim IsMagnitude.unsigned unsigned_of_lowered]
  simp only [IsDoubleNumeral, and_or_left, or_and_right, exists_or]

/-- No digit stands in a refused word. -/
theorem IsDoubleNumeral.not_refused {cs : List Char} (h : IsDoubleNumeral cs) :
    lowered cs ∉ refusedWords := by
  intro hrefused
  obtain ⟨sign, magnitude, -, ⟨mantissa, exponent, hmantissa, -, rfl⟩, rfl⟩ := h
  -- The digit of the mantissa is still there in lower case.
  obtain ⟨d, hd, hdigit⟩ := hmantissa.exists_digit
  have hword : ∀ word ∈ refusedWords, word.toList.any Text.isDigit = false := by decide
  have hsame : asciiLower d = d := by
    simp only [Text.isDigit, Bool.and_eq_true, decide_eq_true_eq] at hdigit
    rw [asciiLower, if_neg (by simp; omega)]
  have hmem : d ∈ (lowered (sign ++ (mantissa ++ exponent))).toList := by
    rw [lowered, String.toList_ofList, ← hsame]
    exact List.mem_map_of_mem (by simp [hd])
  exact List.any_eq_false.mp (hword _ hrefused) d hmem hdigit

/-- Of the words, those without a sign are refused, and one more. -/
theorem lowered_sign_mem_refusedWords {sign : Char} {word : List Char}
    (hsign : sign = '+' ∨ sign = '-') :
    lowered (sign :: word) ∈ refusedWords ↔ sign = '-' ∧ lowered word = "infinity" := by
  have htext : (lowered (sign :: word)).toList = sign :: (lowered word).toList := by
    rcases hsign with rfl | rfl <;> simp only [lowered, String.toList_ofList] <;> rfl
  simp only [refusedWords, List.mem_cons, List.not_mem_nil, or_false, ← String.toList_inj, htext]
  rcases hsign with rfl | rfl <;> simp

/-- The words that are read as they are written. -/
def spelledWords : List String := ["INF", "+INF", "-INF", "NaN"]

private theorem readDouble?_isSome {text : String} : (readDouble? text).isSome = true ↔
    Text.trimmed text ∈ spelledWords ∨ lowered (Text.trim text.toList) ∉ refusedWords ∧
      (readNumber? (Text.trim text.toList)).isSome = true := by
  simp only [readDouble?, Text.trimmed, lowered, spelledWords, List.contains_iff_mem, List.mem_cons,
    List.not_mem_nil, or_false]
  grind

/-- The texts that are read as a double, up to the blanks around them: the words in their spelling,
numerals, and further words behind a sign, in any case. -/
theorem readDouble?_isSome_iff {text : String} : (readDouble? text).isSome = true ↔
    Text.trimmed text ∈ spelledWords ∨ IsDoubleNumeral (Text.trim text.toList) ∨
      ∃ sign word, (sign = '+' ∨ sign = '-') ∧ lowered word ∈ numberWords ∧
        ¬ (sign = '-' ∧ lowered word = "infinity") ∧ Text.trim text.toList = sign :: word := by
  rw [readDouble?_isSome, readNumber?_isSome_iff]
  refine or_congr_right ?_
  -- Numerals are never refused, so what is refused matters for words only.
  rw [and_or_left, and_iff_right_of_imp IsDoubleNumeral.not_refused]
  refine or_congr_right ?_
  generalize Text.trim text.toList = cs
  constructor
  · rintro ⟨hrefused, sign, word, hsign, hword, rfl⟩
    have hunsigned : ∀ word ∈ numberWords, word ∈ refusedWords := by decide
    rcases hsign with rfl | rfl | rfl
    · exact absurd (hunsigned _ hword) hrefused
    · exact ⟨'+', word, .inl rfl, hword,
        fun h => hrefused ((lowered_sign_mem_refusedWords (.inl rfl)).mpr h), rfl⟩
    · exact ⟨'-', word, .inr rfl, hword,
        fun h => hrefused ((lowered_sign_mem_refusedWords (.inr rfl)).mpr h), rfl⟩
  · rintro ⟨sign, word, hsign, hword, hinfinite, rfl⟩
    refine ⟨(lowered_sign_mem_refusedWords hsign).not.mpr hinfinite, [sign], word, ?_, hword, rfl⟩
    rcases hsign with rfl | rfl
    · exact .inr (.inl rfl)
    · exact .inr (.inr rfl)

example : (readDouble? "-iNf").isSome = true := by decide +kernel

end TreeQuery
