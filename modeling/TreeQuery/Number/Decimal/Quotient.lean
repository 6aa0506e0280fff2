import TreeQuery.Number.Decimal

/-!
# The places of a quotient

A long division writes the digits of its quotient in groups of nine. It stops behind the group with
which it comes out even, or when there is no room for one more digit. So an exact quotient may have
zeros behind its last digit. They are dropped in groups as well, and eight of them only from a mantissa
that ends in a whole word of zero bits: some zeros may stay.
-/

namespace TreeQuery.Decimal

/-- How many digits, at most `limit`, a mantissa has room for behind the digits of `q`. -/
def room (q : Nat) : Nat → Nat
  | 0 => 0
  | n + 1 => if q * tenTo (n + 1) < twoTo 96 then n + 1 else room q n

/-- There is no more room than the limit. -/
theorem room_le (q limit : Nat) : room q limit ≤ limit := by
  induction limit with
  | zero => exact Nat.le_refl 0
  | succ n ih =>
    simp only [room]
    split
    · exact Nat.le_refl _
    · exact Nat.le_succ_of_le ih

/-- How many digits follow the whole part when `m` is divided by `d`, after `written` of them and with
so many groups to come. There are at most `limit` of them. -/
def digitsBehind (m d limit written : Nat) : Nat → Nat
  | 0 => written
  | groups + 1 =>
    let n := m * tenTo written
    let next := room (n / d) (min 9 (limit - written))
    if n % d = 0 ∨ next = 0 then written else digitsBehind m d limit (written + next) groups

private theorem digitsBehind_le (m d limit written groups : Nat) (h : written ≤ limit) :
    digitsBehind m d limit written groups ≤ limit := by
  induction groups generalizing written with
  | zero => exact h
  | succ groups ih =>
    simp only [digitsBehind]
    split
    · exact h
    · have hr := room_le (m * tenTo written / d) (min 9 (limit - written))
      exact ih _ (by omega)

/-- The places with which the quotient of two decimals comes out. Seven groups reach from the whole
part of the quotient of the mantissas to the last place that a decimal can have. -/
def quotientPlaces (a b : Decimal) : Nat :=
  digitsBehind a.mantissa b.mantissa (28 + b.scale - a.scale) 0 7 + a.scale - b.scale

/-- A quotient gets no more places than a decimal has. -/
theorem quotientPlaces_le (a b : Decimal) : quotientPlaces a b ≤ 28 := by
  have h := digitsBehind_le a.mantissa b.mantissa (28 + b.scale - a.scale) 0 7 (Nat.zero_le _)
  have ha := a.scale_le
  unfold quotientPlaces
  omega

/-- The same value without `n` zeros at the end of its fraction, if there are as many. -/
def dropZeros (n : Nat) (d : Decimal) : Decimal :=
  if n ≤ d.scale ∧ d.mantissa % tenTo n = 0 then
    { d with
      mantissa := d.mantissa / tenTo n
      scale := d.scale - n
      mantissa_lt := Nat.lt_of_le_of_lt (Nat.div_le_self ..) d.mantissa_lt
      scale_le := Nat.le_trans (Nat.sub_le ..) d.scale_le }
  else d

/-- The same value without eight zeros, if the lowest word of the mantissa is zero. -/
def dropEightZeros (d : Decimal) : Decimal :=
  if d.mantissa % twoTo 32 = 0 then d.dropZeros 8 else d

/-- The same value with fewer zeros at the end of its fraction. At most seven are dropped, or more in
groups of eight. -/
def dropZeroGroups (d : Decimal) : Decimal :=
  dropZeros 1 (dropZeros 2 (dropZeros 4 (dropEightZeros (dropEightZeros (dropEightZeros d)))))

/-- Dropping zeros divides the mantissa by the power of ten of the places that are lost. -/
theorem mantissa_dropZeros (n : Nat) (d : Decimal) :
    (dropZeros n d).mantissa * tenTo (d.scale - (dropZeros n d).scale) = d.mantissa := by
  unfold dropZeros
  split
  · next h =>
    rw [Nat.sub_sub_self h.1]
    exact Nat.div_mul_cancel (Nat.dvd_of_mod_eq_zero h.2)
  · rw [Nat.sub_self]
    exact Nat.mul_one _

end TreeQuery.Decimal
