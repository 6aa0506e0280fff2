import TreeQuery.Expr.Canonical
import TreeQuery.Proofs.Token.Digits

/-!
# Decimals as texts

The text of a decimal is read as that decimal again: no digit is dropped, because the mantissa has room
for all of them, and the scale is the number of places. A literal of a whole number has a place more,
which is kept if there is room for it; the text stays the same.
-/

namespace TreeQuery.Decimal

/-! ### The digits of a text -/

/-- The digits of a decimal, with zeros in front up to one in front of the point. -/
def digits (d : Decimal) : List Char :=
  let ds := Nat.toDigits 10 d.mantissa
  List.replicate (d.scale + 1 - ds.length) '0' ++ ds

/-- The digits in front of the point. -/
def wholeDigits (d : Decimal) : List Char := d.digits.take (d.digits.length - d.scale)

/-- The digits behind the point. -/
def placeDigits (d : Decimal) : List Char := d.digits.drop (d.digits.length - d.scale)

/-- The minus sign, if there is one. -/
def signText (d : Decimal) : List Char := if d.negative then ['-'] else []

private theorem scale_lt_length_digits (d : Decimal) : d.scale < d.digits.length := by
  simp only [digits, List.length_append, List.length_replicate]
  omega

private theorem isDigit_of_mem_digits {d : Decimal} {c : Char} (h : c ∈ d.digits) : Text.isDigit c =
    true := by
  rcases List.mem_append.mp h with h | h
  · rw [List.eq_of_mem_replicate h]
    decide
  · exact isDigit_of_mem_toDigits h

/-- Zeros in front do not count. -/
theorem ofDigitChars_digits (d : Decimal) : Nat.ofDigitChars 10 d.digits 0 = d.mantissa := by
  rw [digits, Nat.ofDigitChars_append, Nat.ofDigitChars_replicate_zero, Nat.mul_zero,
    Nat.ofDigitChars_ten_toDigits]

/-- The digits in front of the point and those behind it are all digits. -/
theorem wholeDigits_append (d : Decimal) : d.wholeDigits ++ d.placeDigits = d.digits :=
  List.take_append_drop _ _

theorem length_placeDigits (d : Decimal) : d.placeDigits.length = d.scale := by
  have hlength := d.scale_lt_length_digits
  rw [placeDigits, List.length_drop]
  omega

/-- In front of the point there is a digit at least. -/
theorem wholeDigits_ne_nil (d : Decimal) : d.wholeDigits ≠ [] := by
  have hlength := d.scale_lt_length_digits
  rw [wholeDigits, ← List.length_pos_iff, List.length_take]
  omega

theorem isDigit_of_mem_wholeDigits {d : Decimal} {c : Char} (h : c ∈ d.wholeDigits) :
    Text.isDigit c = true :=
  isDigit_of_mem_digits (d.wholeDigits_append ▸ List.mem_append_left _ h)

theorem isDigit_of_mem_placeDigits {d : Decimal} {c : Char} (h : c ∈ d.placeDigits) :
    Text.isDigit c = true :=
  isDigit_of_mem_digits (d.wholeDigits_append ▸ List.mem_append_right _ h)

private theorem ofDigitChars_placeDigits (d : Decimal) :
    Nat.ofDigitChars 10 d.placeDigits (Nat.ofDigitChars 10 d.wholeDigits 0) = d.mantissa := by
  rw [← Nat.ofDigitChars_append, wholeDigits_append, ofDigitChars_digits]

/-- Digits that follow only make a number larger. -/
theorem le_ofDigitChars (ds : List Char) (n : Nat) : n ≤ Nat.ofDigitChars 10 ds n := by
  induction ds generalizing n with
  | nil => exact Nat.le_refl n
  | cons c ds ih =>
    rw [Nat.ofDigitChars_cons]
    exact Nat.le_trans (by omega) (ih _)

private theorem ofDigitChars_wholeDigits_lt (d : Decimal) :
    Nat.ofDigitChars 10 d.wholeDigits 0 < twoTo 96 :=
  Nat.lt_of_le_of_lt (le_ofDigitChars d.placeDigits _) (d.ofDigitChars_placeDigits ▸ d.mantissa_lt)

/-- The text of a decimal is its sign, its digits, and a point in front of its places if it has any. -/
theorem toList_render (d : Decimal) :
    d.render.toList = d.signText ++
      (d.wholeDigits ++ if d.scale = 0 then [] else '.' :: d.placeDigits) := by
  have hplaces : (if d.placeDigits.isEmpty then [] else '.' :: d.placeDigits) =
      if d.scale = 0 then [] else '.' :: d.placeDigits := by
    have hempty : d.placeDigits.isEmpty = true ↔ d.scale = 0 := by
      rw [List.isEmpty_iff, ← List.length_eq_zero_iff, length_placeDigits]
    simp only [hempty]
  rw [← hplaces, ← List.append_assoc]
  exact String.toList_ofList

/-! ### Reading digits -/

/-- As long as there is room, digits are taken one after another. -/
theorem Reading.read_digits {ds : List Char} (hds : ∀ c ∈ ds, Text.isDigit c = true) (negative : Bool)
    (r : Reading) (hroom : Nat.ofDigitChars 10 ds r.mantissa < twoTo 96)
    (hscale : if r.pointed then r.scale + ds.length ≤ 28 else r.scale = 0) (cs : List Char) :
    r.read negative (ds ++ cs) =
      { r with
        mantissa := Nat.ofDigitChars 10 ds r.mantissa
        scale := if r.pointed then r.scale + ds.length else 0
        started := r.started || !ds.isEmpty }.read negative cs := by
  induction ds generalizing r with
  | nil =>
    obtain ⟨mantissa, scale, pointed, started⟩ := r
    cases pointed with
    | true => simp
    | false =>
      obtain rfl : scale = 0 := hscale
      simp
  | cons c ds ih =>
    obtain ⟨hc, hds⟩ := List.forall_mem_cons.mp hds
    rw [Nat.ofDigitChars_cons, Nat.mul_comm] at hroom
    have hfirst : r.mantissa * 10 + (c.toNat - 0x30) < twoTo 96 :=
      Nat.lt_of_le_of_lt (le_ofDigitChars ds _) hroom
    have hplace : r.scale < 28 := by
      split at hscale
      · rw [List.length_cons] at hscale
        omega
      · omega
    rw [List.cons_append, Reading.read, if_pos hc, if_pos ⟨hfirst, hplace⟩, ih hds _ hroom]
    · rw [Nat.ofDigitChars_cons, Nat.mul_comm]
      cases hpointed : r.pointed with
      | true => simp [Nat.add_assoc, Nat.add_comm 1]
      | false => simp
    · cases hpointed : r.pointed with
      | true =>
        rw [hpointed, if_pos rfl, List.length_cons] at hscale
        change r.scale + 1 + ds.length ≤ 28
        omega
      | false => rfl

/-- The digits in front of the point are read first, behind the sign. -/
theorem read?_wholeDigits (d : Decimal) (cs : List Char) :
    read? (d.signText ++ (d.wholeDigits ++ cs)) =
      Reading.read d.negative ⟨Nat.ofDigitChars 10 d.wholeDigits 0, 0, false, true⟩ cs := by
  have hread : Reading.read d.negative ⟨0, 0, false, false⟩ (d.wholeDigits ++ cs) =
      Reading.read d.negative ⟨Nat.ofDigitChars 10 d.wholeDigits 0, 0, false, true⟩ cs := by
    have hstarted : d.wholeDigits.isEmpty = false := List.isEmpty_eq_false_iff.mpr d.wholeDigits_ne_nil
    rw [Reading.read_digits (fun c hc => isDigit_of_mem_wholeDigits hc) d.negative
      ⟨0, 0, false, false⟩ d.ofDigitChars_wholeDigits_lt rfl, hstarted]
    rfl
  rw [← hread, signText]
  cases d.negative with
  | true => rfl
  | false =>
    obtain ⟨c, ds, hcons⟩ := List.exists_cons_of_ne_nil d.wholeDigits_ne_nil
    have hc : Text.isDigit c = true := isDigit_of_mem_wholeDigits (hcons ▸ List.mem_cons_self)
    rw [hcons]
    change read? (c :: (ds ++ cs)) = Reading.read false ⟨0, 0, false, false⟩ (c :: (ds ++ cs))
    rw [read?.eq_def]
    split
    · next h =>
      rw [(List.cons.inj h).1] at hc
      exact absurd hc (by decide)
    · next h =>
      rw [(List.cons.inj h).1] at hc
      exact absurd hc (by decide)
    · rfl

/-- The digits behind the point are read as far as they go, and there is room for them. -/
theorem read_placeDigits (d : Decimal) (negative : Bool) :
    Reading.read negative ⟨Nat.ofDigitChars 10 d.wholeDigits 0, 0, false, true⟩ ('.' :: d.placeDigits) =
      Reading.finish ⟨d.mantissa, d.scale, true, true⟩ negative := by
  have hread := Reading.read_digits (fun c hc => isDigit_of_mem_placeDigits hc) negative
    ⟨Nat.ofDigitChars 10 d.wholeDigits 0, 0, true, true⟩
    (by rw [ofDigitChars_placeDigits]; exact d.mantissa_lt)
    (by simp [length_placeDigits, d.scale_le]) []
  rw [List.append_nil, ofDigitChars_placeDigits] at hread
  rw [Reading.read, if_neg (by decide), if_pos (by rfl), hread]
  simp [length_placeDigits, Reading.read]

private theorem finish_of_limits (d : Decimal) (pointed : Bool) (negative : Bool) :
    Reading.finish ⟨d.mantissa, d.scale, pointed, true⟩ negative =
      some { d with negative := negative && d.mantissa != 0 } := by
  rw [Reading.finish, if_pos rfl, ofParts?, dif_pos ⟨d.mantissa_lt, d.scale_le⟩]

private theorem finish_of_positive {d : Decimal} (h : d.negative = false) (pointed : Bool) :
    Reading.finish ⟨d.mantissa, d.scale, pointed, true⟩ false = some d := by
  rw [finish_of_limits]
  obtain ⟨negative, mantissa, scale, hmantissa, hscale⟩ := d
  obtain rfl : negative = false := h
  rfl

/-- The digits behind the point of a literal, which are at least a zero. -/
def literalPlaces (d : Decimal) : List Char := if d.scale = 0 then ['0'] else d.placeDigits

theorem isDigit_of_mem_literalPlaces {d : Decimal} {c : Char} (h : c ∈ d.literalPlaces) :
    Text.isDigit c = true := by
  unfold literalPlaces at h
  split at h
  · rw [List.mem_singleton.mp h]
    decide
  · exact isDigit_of_mem_placeDigits h

theorem literalPlaces_ne_nil (d : Decimal) : d.literalPlaces ≠ [] := by
  unfold literalPlaces
  split
  · simp
  · next h => exact fun hnil => h (by rw [← d.length_placeDigits, hnil]; rfl)

/-- A literal has a point in any case, and a digit behind it. -/
theorem toList_renderDecimalLiteral (d : Decimal) :
    (renderDecimalLiteral d).toList = d.signText ++ (d.wholeDigits ++ '.' :: d.literalPlaces) := by
  rw [renderDecimalLiteral, literalPlaces]
  split
  · next hscale =>
    rw [String.toList_append, toList_render, if_pos hscale]
    simp
  · next hscale => rw [toList_render, if_neg hscale]

theorem toList_renderDecimalLiteral_of_positive {d : Decimal} (h : d.negative = false) :
    (renderDecimalLiteral d).toList = d.wholeDigits ++ '.' :: d.literalPlaces := by
  rw [toList_renderDecimalLiteral, signText, h]
  rfl

section

variable {d d' : Decimal} (hscale : d.scale = 0) (hmantissa : d'.mantissa = d.mantissa * 10)
  (hscale' : d'.scale = 1)

include hscale hmantissa hscale'

/-- A whole number with a place more has a digit more. -/
theorem digits_tenfold : d'.digits = d.digits ++ ['0'] := by
  have hpos : 0 < (Nat.toDigits 10 d.mantissa).length := Nat.length_toDigits_pos
  have hdigits : d.digits = Nat.toDigits 10 d.mantissa := by
    rw [digits, hscale, show 0 + 1 - (Nat.toDigits 10 d.mantissa).length = 0 by omega]
    rfl
  rw [hdigits]
  by_cases hzero : d.mantissa = 0
  · simp [digits, hmantissa, hscale', hzero]
  · have htoDigits : Nat.toDigits 10 (d.mantissa * 10) = Nat.toDigits 10 d.mantissa ++ ['0'] := by
      rw [Nat.toDigits_of_base_le (by decide) (by omega), Nat.mul_div_cancel _ (by decide),
        Nat.mul_mod_left]
      rfl
    have hlength : 1 + 1 - (Nat.toDigits 10 d.mantissa ++ ['0']).length = 0 := by
      rw [List.length_append, List.length_singleton]
      omega
    simp only [digits, hmantissa, hscale', htoDigits, hlength]
    rfl

private theorem renderDecimalLiteral_tenfold (hnegative : d'.negative = d.negative) :
    renderDecimalLiteral d' = renderDecimalLiteral d := by
  have hsign : d'.signText = d.signText := by rw [signText, signText, hnegative]
  have hdigits := digits_tenfold hscale hmantissa hscale'
  have hwhole : d'.wholeDigits = d.digits := by
    rw [wholeDigits, hdigits, hscale', List.length_append, List.length_singleton, Nat.add_sub_cancel,
      List.take_left]
  have hplaces : d'.literalPlaces = ['0'] := by
    rw [literalPlaces, hscale', if_neg Nat.one_ne_zero, placeDigits, hdigits, hscale',
      List.length_append, List.length_singleton, Nat.add_sub_cancel, List.drop_left]
  have hall : d.wholeDigits = d.digits := by rw [wholeDigits, hscale, Nat.sub_zero, List.take_length]
  apply String.toList_inj.mp
  rw [toList_renderDecimalLiteral, toList_renderDecimalLiteral, hsign, hwhole, hplaces, hall,
    literalPlaces, if_pos hscale]

end

/-- The text of a literal is read, as a decimal that has the same text as a literal. -/
theorem read?_renderDecimalLiteral {d : Decimal} (h : d.negative = false) :
    ∃ d', read? (renderDecimalLiteral d).toList = some d' ∧
      renderDecimalLiteral d' = renderDecimalLiteral d := by
  rw [toList_renderDecimalLiteral, read?_wholeDigits, literalPlaces, h]
  split
  · next hscale =>
    have hplaces : d.placeDigits = [] := List.eq_nil_of_length_eq_zero (d.length_placeDigits.trans hscale)
    have hwhole := d.ofDigitChars_placeDigits
    rw [hplaces, Nat.ofDigitChars_nil] at hwhole
    rw [hwhole, Reading.read, if_neg (by decide), if_pos (by rfl), Reading.read, if_pos (by decide)]
    by_cases hroom : d.mantissa * 10 < twoTo 96
    · obtain ⟨d', hnegative, hmantissa, hscale'⟩ : ∃ d' : Decimal, d'.negative = false ∧
          d'.mantissa = d.mantissa * 10 ∧ d'.scale = 1 :=
        ⟨⟨false, d.mantissa * 10, 1, hroom, by decide⟩, rfl, rfl, rfl⟩
      refine ⟨d', ?_, renderDecimalLiteral_tenfold hscale hmantissa hscale' (hnegative.trans h.symm)⟩
      have hfinish := finish_of_positive hnegative true
      rw [hmantissa, hscale'] at hfinish
      rw [if_pos ⟨hroom, (by decide : 0 < 28)⟩]
      exact hfinish
    · refine ⟨d, ?_, rfl⟩
      rw [if_neg (fun hlimits => hroom hlimits.1), if_pos (by rfl), Reading.finishRounded,
        if_pos (by decide), ← hscale, finish_of_positive h]
  · exact ⟨d, by rw [read_placeDigits, finish_of_positive h], rfl⟩

end TreeQuery.Decimal
