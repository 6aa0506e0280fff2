import TreeQuery.Number.Binary.Text
import TreeQuery.Proofs.Token.Digits

/-!
# Literals of doubles as texts

The text of a finite double is a numeral with an exponent, behind a minus sign if the double has one.
-/

namespace TreeQuery

/-- An integer is its digits, behind a minus sign if it is negative. -/
theorem exists_toString_int (i : Int) :
    ∃ sign n, (sign = [] ∨ sign = ['-']) ∧ (toString i).toList = sign ++ Nat.toDigits 10 n := by
  cases i with
  | ofNat n => exact ⟨[], n, Or.inl rfl, Nat.toList_repr⟩
  | negSucc n =>
    refine ⟨['-'], n + 1, Or.inr rfl, ?_⟩
    change ("-" ++ Nat.repr (n + 1)).toList = _
    rw [String.toList_append, Nat.toList_repr]
    rfl

/-- A double is written as a literal in scientific form, behind its sign. -/
theorem exists_renderLiteral (b : Binary) :
    ∃ whole point sign ds, IsScientific whole point sign ds ∧ (renderLiteral b).toList =
      (if b.negative then ['-'] else []) ++ (whole ++ (point ++ 'e' :: (sign ++ ds))) := by
  rw [renderLiteral]
  dsimp only
  generalize (if b.negative then ['-'] else []) = minus
  split
  · have hzero : ∀ c ∈ ['0'], Text.isDigit c = true := List.forall_mem_singleton.mpr (by decide)
    exact ⟨['0'], [], [], ['0'],
      ⟨by simp, hzero, Or.inl rfl, Or.inl rfl, by simp, hzero⟩, String.toList_ofList⟩
  · obtain ⟨sign, n, hsign, hexponent⟩ := exists_toString_int
      ((Binary.shortest b).2 + ((Nat.toDigits 10 (Binary.shortest b).1).length - 1 : Nat))
    have hdigits : ∀ c ∈ Nat.toDigits 10 (Binary.shortest b).1, Text.isDigit c = true := fun c hc =>
      isDigit_of_mem_toDigits hc
    have hpos : 0 < (Nat.toDigits 10 (Binary.shortest b).1).length := Nat.length_toDigits_pos
    simp only [hexponent, String.toList_ofList]
    generalize Nat.toDigits 10 (Binary.shortest b).1 = ds at hdigits hpos
    split
    · exact ⟨ds, [], sign, Nat.toDigits 10 n, ⟨List.length_pos_iff.mp hpos, hdigits, Or.inl rfl, hsign,
        Nat.toDigits_ne_nil, fun c hc => isDigit_of_mem_toDigits hc⟩, by simp⟩
    · refine ⟨ds.take 1, '.' :: ds.drop 1, sign, Nat.toDigits 10 n, ⟨?_, ?_, Or.inr ⟨_, rfl, ?_⟩, hsign,
        Nat.toDigits_ne_nil, fun c hc => isDigit_of_mem_toDigits hc⟩, by simp⟩
      · rw [← List.length_pos_iff, List.length_take]
        omega
      · exact fun c hc => hdigits c (List.mem_of_mem_take hc)
      · exact fun c hc => hdigits c (List.mem_of_mem_drop hc)

/-- A double without a sign is one token. -/
theorem starts_renderLiteral {b : Binary} (h : b.negative = false) {rest : List Char}
    (hrest : Breaks rest) :
    Starts ((renderLiteral b).toList ++ rest) .double (renderLiteral b) rest := by
  obtain ⟨whole, point, sign, ds, hparts, htext⟩ := exists_renderLiteral b
  rw [h] at htext
  have hstarts := starts_scientific hparts hrest
  rwa [show whole ++ (point ++ 'e' :: (sign ++ ds)) = (renderLiteral b).toList from htext.symm,
    String.ofList_toList] at hstarts

end TreeQuery
