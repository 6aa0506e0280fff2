import TreeQuery.Proofs.Number.DecimalText
import TreeQuery.Proofs.Number.Numeral

/-!
# Digits in groups

A decimal is read from an optional sign and digits with at most one point, in which underscores may
stand behind the first digit. No other text is read, and every such text is, with the number that its
digits denote, as long as there is room for them in a mantissa and its places.
-/

namespace TreeQuery

/-! ### The grammar -/

/-- What is left of the digits of a decimal: whether the point is behind, whether a digit is, and the
text from there on. -/
inductive IsGrouped : Bool → Bool → List Char → Prop
  | nil {pointed : Bool} : IsGrouped pointed true []
  | digit {pointed started : Bool} {c : Char} {cs : List Char} :
      Text.isDigit c = true → IsGrouped pointed true cs → IsGrouped pointed started (c :: cs)
  | point {started : Bool} {cs : List Char} :
      IsGrouped true started cs → IsGrouped false started ('.' :: cs)
  | underscore {pointed : Bool} {cs : List Char} :
      IsGrouped pointed true cs → IsGrouped pointed true ('_' :: cs)

/-- The text without its underscores. -/
def ungrouped (cs : List Char) : List Char := cs.filter (· != '_')

private theorem ungrouped_cons_of_digit {c : Char} (h : Text.isDigit c = true) (cs : List Char) :
    ungrouped (c :: cs) = c :: ungrouped cs := by
  refine List.filter_cons_of_pos (bne_iff_ne.mpr ?_)
  rintro rfl
  exact absurd h (by decide)

private theorem count_point_cons_of_digit {c : Char} (h : Text.isDigit c = true) (cs : List Char) :
    (c :: cs).count '.' = cs.count '.' := by
  refine List.count_cons_of_ne ?_
  rintro rfl
  exact absurd h (by decide)

/-- Without the underscores, there are digits and points left, no more than one point, and a digit
somewhere. -/
theorem IsGrouped.digits_and_point {pointed started : Bool} {cs : List Char} (h : IsGrouped pointed started cs) :
    (∀ c ∈ ungrouped cs, Text.isDigit c = true ∨ c = '.') ∧
      (ungrouped cs).count '.' ≤ (if pointed then 0 else 1) ∧
      (started = true ∨ ∃ c ∈ ungrouped cs, Text.isDigit c = true) := by
  induction h with
  | nil => exact ⟨nofun, Nat.zero_le _, .inl rfl⟩
  | digit hdigit _ ih =>
    obtain ⟨hall, hcount, -⟩ := ih
    rw [ungrouped_cons_of_digit hdigit, count_point_cons_of_digit hdigit]
    exact ⟨List.forall_mem_cons.mpr ⟨.inl hdigit, hall⟩, hcount, .inr ⟨_, List.mem_cons_self, hdigit⟩⟩
  | point _ ih =>
    obtain ⟨hall, hcount, hdigit⟩ := ih
    rw [if_pos rfl, Nat.le_zero] at hcount
    rw [ungrouped, List.filter_cons_of_pos (by decide), List.count_cons_self]
    refine ⟨List.forall_mem_cons.mpr ⟨.inr rfl, hall⟩, ?_, hdigit.imp_right ?_⟩
    · exact Nat.succ_le_succ (Nat.le_of_eq hcount)
    · exact fun ⟨c, hc, hdigit⟩ => ⟨c, List.mem_cons_of_mem _ hc, hdigit⟩
  | underscore _ ih =>
    rw [ungrouped, List.filter_cons_of_neg (by decide)]
    exact ih

private theorem IsGrouped.isPointed {cs : List Char} (h : IsGrouped false false cs) :
    IsPointed (ungrouped cs) := by
  obtain ⟨hall, hcount, hdigit⟩ := h.digits_and_point
  exact ⟨hall, hcount, hdigit.resolve_left Bool.false_ne_true⟩

private theorem isGrouped_of_digits {pointed started : Bool} {cs : List Char}
    (hall : ∀ c ∈ cs, Text.isDigit c = true ∨ c = '.')
    (hcount : cs.count '.' ≤ if pointed then 0 else 1)
    (hdigit : started = true ∨ ∃ c ∈ cs, Text.isDigit c = true) : IsGrouped pointed started cs := by
  induction cs generalizing pointed started with
  | nil =>
    obtain rfl := hdigit.resolve_right (by simp)
    exact .nil
  | cons c cs ih =>
    obtain ⟨hc, hcs⟩ := List.forall_mem_cons.mp hall
    rcases hc with hc | rfl
    · rw [count_point_cons_of_digit hc] at hcount
      exact .digit hc (ih hcs hcount (.inl rfl))
    · rw [List.count_cons_self] at hcount
      have hlater : started = true ∨ ∃ c ∈ cs, Text.isDigit c = true := by
        refine hdigit.imp_right ?_
        rintro ⟨c, hc, hdigit⟩
        rcases List.mem_cons.mp hc with rfl | hc
        · exact absurd hdigit (by decide)
        · exact ⟨c, hc, hdigit⟩
      cases pointed with
      | true => exact absurd hcount (Nat.not_succ_le_zero _)
      | false => exact .point (ih hcs (Nat.le_of_succ_le_succ hcount) hlater)

/-- Where there are no underscores, nothing is added to the grammar of digits with a point. -/
theorem isGrouped_iff_of_not_mem {cs : List Char} (h : '_' ∉ cs) :
    IsGrouped false false cs ↔ IsPointed cs := by
  constructor
  · intro hgrouped
    have hsame : ungrouped cs = cs := List.filter_eq_self.mpr fun c hc => by
      rw [bne_iff_ne]
      rintro rfl
      exact h hc
    exact hsame ▸ hgrouped.isPointed
  · intro hpointed
    exact isGrouped_of_digits hpointed.digit_or_point hpointed.count_point_le (.inr hpointed.exists_digit)

private theorem IsGrouped.unsigned {cs : List Char} (h : IsGrouped false false cs) : Unsigned cs := by
  refine unsigned_of_head fun c hc => ?_
  cases h with
  | digit hdigit _ => exact .inl (Option.some.inj hc ▸ hdigit)
  | point _ => exact .inr (Option.some.inj hc).symm

namespace Decimal

/-! ### Only such texts are read -/

private theorem isGrouped_of_uncounted {pointed : Bool} {cs : List Char}
    (h : cs.all isUncounted = true) :
    IsGrouped pointed true cs := by
  induction cs with
  | nil => exact .nil
  | cons c cs ih =>
    rw [List.all_cons, Bool.and_eq_true, isUncounted, Bool.or_eq_true, beq_iff_eq] at h
    rcases h with ⟨hc | rfl, hcs⟩
    · exact .digit hc (ih hcs)
    · exact .underscore (ih hcs)

private theorem Reading.started_of_finish {r : Reading} {negative : Bool} {d : Decimal}
    (h : r.finish negative = some d) : r.started = true := by
  rw [Reading.finish, Option.ite_none_right_eq_some] at h
  exact h.1

private theorem Reading.isGrouped_of_read {negative : Bool} {r : Reading} {cs : List Char} {d : Decimal}
    (h : r.read negative cs = some d) : IsGrouped r.pointed r.started cs := by
  induction cs generalizing r with
  | nil =>
    rw [r.started_of_finish h]
    exact .nil
  | cons c cs ih =>
    rw [Reading.read] at h
    split at h
    · next hdigit =>
      refine .digit hdigit ?_
      by_cases hroom : r.mantissa * 10 + (c.toNat - 0x30) < twoTo 96 ∧ r.scale < 28
      · exact ih ((if_pos hroom).symm.trans h)
      · replace h := (if_neg hroom).symm.trans h
        split at h
        · next hrest => exact isGrouped_of_uncounted (Bool.and_eq_true_iff.mp hrest).2
        · contradiction
    · split at h
      · next hpoint =>
        rw [Bool.and_eq_true, beq_iff_eq, Bool.not_eq_true'] at hpoint
        rw [hpoint.1, hpoint.2]
        exact .point (ih h)
      · split at h
        · next hunderscore =>
          rw [Bool.and_eq_true, beq_iff_eq] at hunderscore
          rw [hunderscore.1, hunderscore.2]
          refine .underscore ?_
          split at h
          · split at h
            · next hrest => exact isGrouped_of_uncounted hrest
            · contradiction
          · exact hunderscore.2 ▸ ih h
        · contradiction

private theorem read?_eq (cs : List Char) :
    read? cs = Reading.read (splitSign cs).1 ⟨0, 0, false, false⟩ (splitSign cs).2 :=
  eq_splitSign (f := fun negative => Reading.read negative ⟨0, 0, false, false⟩)
    (fun _ => rfl) (fun _ => rfl) read?.eq_3 cs

/-- A decimal is read from an optional sign and digits in groups. -/
theorem isGrouped_of_read? {cs : List Char} {d : Decimal} (h : read? cs = some d) :
    ∃ sign body, IsSign sign ∧ IsGrouped false false body ∧ cs = sign ++ body := by
  rw [read?_eq] at h
  exact (splitSign_iff (P := fun _ cs => IsGrouped false false cs) fun _ _ => IsGrouped.unsigned).mp
    (Reading.isGrouped_of_read h)

/-! ### All such texts are read that there is room for -/

/-- The number that the digits in a text denote, behind the digits of `n`. -/
def digitsNumber (cs : List Char) (n : Nat) : Nat := Nat.ofDigitChars 10 (cs.filter Text.isDigit) n

private theorem digitsNumber_cons_of_digit
    {c : Char} (h : Text.isDigit c = true) (cs : List Char) (n : Nat) :
    digitsNumber (c :: cs) n = digitsNumber cs (n * 10 + (c.toNat - 0x30)) := by
  rw [digitsNumber, List.filter_cons_of_pos h, Nat.ofDigitChars_cons, Nat.mul_comm]
  rfl

private theorem digitsNumber_cons_of_not_digit
    {c : Char} (h : Text.isDigit c = false) (cs : List Char) (n : Nat) :
    digitsNumber (c :: cs) n = digitsNumber cs n := by
  rw [digitsNumber, List.filter_cons_of_neg (Bool.not_eq_true _ ▸ h), digitsNumber]

/-- How many digits of a text stand behind its point, which may be in front of the text. -/
def countPlaces : Bool → List Char → Nat
  | _, [] => 0
  | pointed, c :: cs =>
    if Text.isDigit c then (if pointed then 1 else 0) + countPlaces pointed cs
    else countPlaces (pointed || c == '.') cs

/-- Behind the point every digit is a place. -/
theorem countPlaces_true (cs : List Char) :
    countPlaces true cs = (cs.filter Text.isDigit).length := by
  induction cs with
  | nil => rfl
  | cons c cs ih =>
    rw [countPlaces, Bool.true_or, List.filter_cons]
    split
    · rw [if_pos rfl, List.length_cons, ih, Nat.add_comm]
    · exact ih

private theorem uncounted_of_isGrouped {started : Bool} {cs : List Char}
    (h : IsGrouped true started cs) :
    cs.all isUncounted = true := by
  induction cs generalizing started with
  | nil => rfl
  | cons c cs ih =>
    rw [List.all_cons, isUncounted]
    cases h with
    | digit hdigit h => rw [hdigit, ih h]; rfl
    | underscore h => rw [ih h]; rfl

/-- Where all places are taken already, nothing that counts is left. -/
theorem digitsNumber_of_countPlaces_true {cs : List Char} (h : countPlaces true cs = 0) (n : Nat) :
    digitsNumber cs n = n := by
  rw [countPlaces_true, List.length_eq_zero_iff] at h
  rw [digitsNumber, h, Nat.ofDigitChars_nil]

/-- Digits in groups are read to their end, if there is room for all of them. -/
theorem Reading.read_of_isGrouped {pointed started : Bool} {cs : List Char}
    (h : IsGrouped pointed started cs) (negative : Bool) {r : Reading} (hpointed : r.pointed = pointed)
    (hstarted : r.started = started) (hscale : r.pointed = false → r.scale = 0)
    (hroom : digitsNumber cs r.mantissa < twoTo 96) (hplaces : r.scale + countPlaces pointed cs ≤ 28) :
    r.read negative cs = ofParts? (negative && digitsNumber cs r.mantissa != 0)
      (digitsNumber cs r.mantissa) (r.scale + countPlaces pointed cs) := by
  induction h generalizing r with
  | nil => rw [Reading.read, Reading.finish, if_pos hstarted]; rfl
  | @digit pointed started c cs hdigit hcs ih =>
    subst hpointed
    rw [digitsNumber_cons_of_digit hdigit] at hroom ⊢
    rw [countPlaces, if_pos hdigit] at hplaces ⊢
    have hfirst : r.mantissa * 10 + (c.toNat - 0x30) < twoTo 96 :=
      Nat.lt_of_le_of_lt (le_ofDigitChars _ _) hroom
    -- Without a point no place is taken, so there is room for one in either case.
    have hplace : r.scale < 28 ∧ (if r.pointed then r.scale + 1 else 0) + countPlaces r.pointed cs =
        r.scale + ((if r.pointed then 1 else 0) + countPlaces r.pointed cs) := by
      cases hpointed : r.pointed with
      | true =>
        simp only [hpointed, if_true] at hplaces ⊢
        omega
      | false =>
        rw [hscale hpointed]
        simp
    rw [Reading.read, if_pos hdigit, if_pos ⟨hfirst, hplace.1⟩, ← hplace.2]
    refine ih (r := { r with
      mantissa := r.mantissa * 10 + (c.toNat - 0x30)
      scale := if r.pointed then r.scale + 1 else 0
      started := true }) rfl rfl (fun hpointed => if_neg (Bool.not_eq_true _ ▸ hpointed)) hroom ?_
    rw [← hplace.2] at hplaces
    exact hplaces
  | @point started cs hcs ih =>
    rw [digitsNumber_cons_of_not_digit (by decide)] at hroom ⊢
    rw [Reading.read, if_neg (by decide), if_pos (by rw [hpointed]; rfl)]
    exact ih (r := { r with pointed := true }) rfl hstarted (fun h => Bool.noConfusion h) hroom hplaces
  | @underscore pointed cs hcs ih =>
    subst hpointed
    rw [digitsNumber_cons_of_not_digit (by decide)] at hroom ⊢
    rw [countPlaces, if_neg (by decide), show (r.pointed || '_' == '.') = r.pointed from Bool.or_false _]
      at hplaces ⊢
    rw [Reading.read, if_neg (by decide), if_neg (by simp), if_pos (by rw [hstarted]; rfl)]
    split
    · next hshort =>
      -- A short reading stops counting here. All its places are taken, so no digit is left to count.
      have hfull : r.scale = 28 := by
        rw [Reading.isShort, Bool.and_eq_true, beq_iff_eq] at hshort
        exact hshort.1
      have hpointed : r.pointed = true := by
        rw [← Bool.not_eq_false]
        intro hpointed
        rw [hscale hpointed] at hfull
        contradiction
      rw [hpointed] at hcs hplaces ⊢
      have hnone : countPlaces true cs = 0 := by omega
      rw [if_pos (uncounted_of_isGrouped hcs), Reading.finish, if_pos hstarted,
        digitsNumber_of_countPlaces_true hnone, hnone]
      rfl
    · exact ih rfl hstarted hscale hroom hplaces

/-- The number that grouped digits denote is read, if there is room for it. -/
theorem exists_read?_of_isGrouped {sign body : List Char} (hsign : IsSign sign)
    (h : IsGrouped false false body) (hroom : digitsNumber body 0 < twoTo 96)
    (hplaces : countPlaces false body ≤ 28) :
    ∃ d, read? (sign ++ body) = some d ∧
      d.value = signedBy (sign == ['-']) (digitsNumber body 0) / tenTo (countPlaces false body) := by
  let P (negative : Bool) (cs : List Char) : Prop := cs = body ∧ negative = (sign == ['-'])
  have hsplit : P (splitSign (sign ++ body)).1 (splitSign (sign ++ body)).2 :=
    (splitSign_iff (P := P) fun _ _ hP => hP.1 ▸ h.unsigned).mpr ⟨sign, body, hsign, ⟨rfl, rfl⟩, rfl⟩
  have hread := Reading.read_of_isGrouped h (sign == ['-']) (r := ⟨0, 0, false, false⟩) rfl rfl
    (fun _ => rfl) hroom (by rwa [Nat.zero_add])
  rw [read?_eq, hsplit.1, hsplit.2, hread, Nat.zero_add]
  obtain ⟨d, hd⟩ := Option.ne_none_iff_exists'.mp
    ((ofParts?_eq_none_iff hplaces).not.mpr (Nat.not_le.mpr hroom))
  obtain ⟨hsigned, -, hplaces⟩ := ofParts?_eq_some hd
  refine ⟨d, hd, ?_⟩
  rw [value, hsigned, hplaces]

end Decimal

end TreeQuery
