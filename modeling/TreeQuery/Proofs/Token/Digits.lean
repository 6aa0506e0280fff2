import TreeQuery.Number.Integer
import TreeQuery.Proofs.Token.Words

/-!
# Integers as tokens

The digits of a number are one token, which is read as the number again.
-/

namespace TreeQuery

/-- An integer is written in digits. -/
theorem isDigit_of_mem_toDigits {n : Nat} {c : Char} (h : c ∈ Nat.toDigits 10 n) :
    Text.isDigit c = true := by
  have hdigit := Nat.isDigit_of_mem_toDigits (by decide) (by decide) h
  simp only [Char.isDigit, Bool.and_eq_true, decide_eq_true_eq] at hdigit
  simp only [Text.isDigit, Bool.and_eq_true, decide_eq_true_eq]
  exact ⟨UInt32.le_iff_toNat_le.mp hdigit.1, UInt32.le_iff_toNat_le.mp hdigit.2⟩

/-- Digits are read as one token. -/
theorem starts_toDigits (n : Nat) {rest : List Char} (hrest : Breaks rest) :
    Starts (Nat.toDigits 10 n ++ rest) .integer (String.ofList (Nat.toDigits 10 n)) rest := by
  obtain ⟨d, ds, hdigits⟩ := List.exists_cons_of_ne_nil (Nat.toDigits_ne_nil (n := n) (b := 10))
  have hall : ∀ c ∈ d :: ds, Text.isDigit c = true := fun c hc =>
    isDigit_of_mem_toDigits (hdigits ▸ hc)
  rw [hdigits]
  exact starts_digits (hall d (by simp)) (fun c hc => hall c (List.mem_cons_of_mem _ hc)) hrest

private theorem readNat?_digits {ds : List Char} (hne : ds ≠ [])
    (hds : ∀ c ∈ ds, Text.isDigit c = true) :
    Integer.readNat? ds = some (Integer.ofDigits ds) := by
  rw [Integer.readNat?, List.isEmpty_eq_false_iff.mpr hne, List.all_eq_true.mpr hds]
  rfl

/-- Digits carry no sign. -/
theorem read?_digits {ds : List Char} (hne : ds ≠ []) (hds : ∀ c ∈ ds, Text.isDigit c = true) :
    Integer.read? ds = Integer.fit? (Integer.ofDigits ds) := by
  rw [Integer.read?.eq_def]
  split
  · exact absurd (hds '-' List.mem_cons_self) (by decide)
  · exact absurd (hds '+' List.mem_cons_self) (by decide)
  · rw [readNat?_digits hne hds, Option.bind_some]

/-- A number is read back from its digits. -/
theorem readNat?_toDigits (n : Nat) : Integer.readNat? (Nat.toDigits 10 n) = some n := by
  rw [readNat?_digits Nat.toDigits_ne_nil fun c hc => isDigit_of_mem_toDigits hc, Integer.ofDigits,
    Nat.ofDigitChars_ten_toDigits]

private theorem read?_toDigits (n : Nat) : Integer.read? (Nat.toDigits 10 n) = Integer.fit? n := by
  rw [read?_digits Nat.toDigits_ne_nil fun c hc => isDigit_of_mem_toDigits hc, Integer.ofDigits,
    Nat.ofDigitChars_ten_toDigits]

/-- An integer that is not negative is its digits. -/
theorem toList_renderInteger {i : Int64} (h : 0 ≤ i.toInt) :
    (Integer.render i).toList = Nat.toDigits 10 i.toInt.toNat := by
  obtain ⟨n, hn⟩ := Int.eq_ofNat_of_zero_le h
  rw [Integer.render, hn]
  exact Nat.toList_repr

/-- An integer without a sign is read back from its text. -/
theorem read?_renderInteger {i : Int64} (h : 0 ≤ i.toInt) :
    Integer.read? (Integer.render i).toList = some i := by
  rw [toList_renderInteger h, read?_toDigits, Int.toNat_of_nonneg h, Integer.fit?_toInt]

/-- Its text is one token. -/
theorem starts_renderInteger {i : Int64} (h : 0 ≤ i.toInt) {rest : List Char}
    (hrest : Breaks rest) :
    Starts ((Integer.render i).toList ++ rest) .integer (Integer.render i) rest := by
  have hstarts := starts_toDigits i.toInt.toNat hrest
  rwa [← toList_renderInteger h, String.ofList_toList] at hstarts

end TreeQuery
