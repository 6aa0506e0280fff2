import TreeQuery.Atomic.Cast
import TreeQuery.Proofs.Number.Grouped

/-!
# Casts of texts

A text is cast to a truth value, an integer or a decimal if it is written as the type asks for, with
blanks around it. For truth values and integers these are exactly the texts of the type. A decimal may
have underscores between its digits, which the type does not have; its exponents are refused, as are all
other texts.
-/

namespace TreeQuery.Atomic

/-- The text of a string or of an untyped value. -/
inductive HasText : Atomic → String → Prop
  | string (s : String) : HasText (.string s) s
  | untyped (s : String) : HasText (.untyped s) s

/-- A cast has a result where there is a value that corresponds. -/
theorem cast_eq_ok_iff {a b : Atomic} {target : AtomicType} :
    a.cast target = .ok b ↔ a.castTo? target = some b := by
  rw [cast]
  cases a.castTo? target with
  | none => exact iff_of_false nofun nofun
  | some c => rw [Except.ok.injEq, Option.some_inj]

private theorem readBoolean?_eq_some_iff {text : String} {b : Bool} : readBoolean? text = some b ↔
    Text.trimmed text ∈ (if b then ["true", "1"] else ["false", "0"]) := by
  simp only [readBoolean?]
  generalize Text.trimmed text = s
  cases b <;> simp <;> grind

/-- No exponent is marked in grouped digits. -/
theorem isExponentMark_of_isGrouped {pointed started : Bool} {cs : List Char}
    (h : IsGrouped pointed started cs) : ∀ c ∈ cs, isExponentMark c = false := by
  induction h with
  | nil => exact nofun
  | digit hdigit _ ih =>
    refine List.forall_mem_cons.mpr ⟨?_, ih⟩
    by_contra hmark
    simp only [isExponentMark, Bool.not_eq_false, Bool.or_eq_true, beq_iff_eq] at hmark
    rcases hmark with rfl | rfl <;> exact absurd hdigit (by decide)
  | point _ ih => exact List.forall_mem_cons.mpr ⟨by decide, ih⟩
  | underscore _ ih => exact List.forall_mem_cons.mpr ⟨by decide, ih⟩

/-- Exponents are refused twice: no text with one is read as a decimal anyway. -/
theorem readDecimal?_eq (text : String) :
    readDecimal? text = Decimal.read? (Text.trim text.toList) := by
  simp only [readDecimal?]
  generalize Text.trim text.toList = cs
  split
  · next h =>
    obtain ⟨c, hc, hmark⟩ := List.any_eq_true.mp h
    refine (Option.eq_none_iff_forall_ne_some.mpr fun d hread => ?_).symm
    obtain ⟨sign, body, hsign, hbody, rfl⟩ := Decimal.isGrouped_of_read? hread
    rcases List.mem_append.mp hc with hc | hc
    · rcases hsign with rfl | rfl | rfl
      · exact absurd hc List.not_mem_nil
      · rw [List.mem_singleton.mp hc] at hmark
        exact absurd hmark (by decide)
      · rw [List.mem_singleton.mp hc] at hmark
        exact absurd hmark (by decide)
    · rw [isExponentMark_of_isGrouped hbody c hc] at hmark
      contradiction
  · rfl

section

variable {a b : Atomic} {text : String} (h : HasText a text)

include h

/-- A text is cast to a truth value if it is one of two words or digits, with blanks around it. -/
theorem cast_boolean_iff : a.cast .boolean = .ok b ↔ ∃ holds, b = .boolean holds ∧
    Text.trimmed text ∈ (if holds then ["true", "1"] else ["false", "0"]) := by
  have hcast : a.castTo? .boolean = (readBoolean? text).map .boolean := by cases h <;> rfl
  simp only [cast_eq_ok_iff, hcast, Option.map_eq_some_iff, readBoolean?_eq_some_iff]
  grind

/-- A text is cast to an integer if it is a sign at most and digits, with blanks around them, and the
number they denote fits. -/
theorem cast_integer_iff : a.cast .integer = .ok b ↔ ∃ i sign digits, b = .integer i ∧
    IsSign sign ∧ IsDigits digits ∧ Text.trim text.toList = sign ++ digits ∧
      i.toInt = Decimal.signedBy (sign == ['-']) (Integer.ofDigits digits) := by
  have hcast : a.castTo? .integer = (readInteger? text).map .integer := by cases h <;> rfl
  simp only [cast_eq_ok_iff, hcast, Option.map_eq_some_iff, readInteger?,
    Integer.read?_eq_some_iff]
  grind

/-- A text is cast to the decimal that is read from it, with blanks around it. -/
theorem castTo?_decimal :
    a.castTo? .decimal = (Decimal.read? (Text.trim text.toList)).map .decimal := by
  rw [← readDecimal?_eq]
  cases h <;> rfl

/-- A text that is cast to a decimal is a sign at most and digits in groups. -/
theorem isGrouped_of_cast_decimal (hcast : a.cast .decimal = .ok b) : ∃ sign body,
    IsSign sign ∧ IsGrouped false false body ∧ Text.trim text.toList = sign ++ body := by
  rw [cast_eq_ok_iff, castTo?_decimal h, Option.map_eq_some_iff] at hcast
  obtain ⟨d, hd, -⟩ := hcast
  exact Decimal.isGrouped_of_read? hd

/-- Without an underscore there are digits with at most one point behind the sign. -/
theorem isPointed_of_cast_decimal (hcast : a.cast .decimal = .ok b)
    (hplain : '_' ∉ Text.trim text.toList) :
    ∃ sign body, IsSign sign ∧ IsPointed body ∧ Text.trim text.toList = sign ++ body := by
  obtain ⟨sign, body, hsign, hbody, htext⟩ := isGrouped_of_cast_decimal h hcast
  rw [htext] at hplain
  have hnone : '_' ∉ body := fun hc => hplain (List.mem_append_right sign hc)
  exact ⟨sign, body, hsign, (isGrouped_iff_of_not_mem hnone).mp hbody, htext⟩

/-- Grouped digits are cast to the number that they denote, if a decimal has room for its digits. -/
theorem exists_cast_decimal {sign body : List Char} (hsign : IsSign sign)
    (hbody : IsGrouped false false body) (htext : Text.trim text.toList = sign ++ body)
    (hroom : Decimal.digitsNumber body 0 < twoTo 96) (hplaces : Decimal.countPlaces false body ≤ 28) :
    ∃ d, a.cast .decimal = .ok (.decimal d) ∧
      d.value = Decimal.signedBy (sign == ['-']) (Decimal.digitsNumber body 0) /
        tenTo (Decimal.countPlaces false body) := by
  obtain ⟨d, hd, hvalue⟩ := Decimal.exists_read?_of_isGrouped hsign hbody hroom hplaces
  refine ⟨d, ?_, hvalue⟩
  rw [cast_eq_ok_iff, castTo?_decimal h, htext, hd, Option.map_some]

end

example : ((Atomic.string "1_000").castTo? .decimal).isSome = true := by decide +kernel

end TreeQuery.Atomic
