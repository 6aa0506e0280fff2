import TreeQuery.Number.Power

/-!
# Remainders of long numbers

A division by at most 64 bits has its exact remainder. A division by more is carried out by hand, in
words of 32 bits from the first one down, and each word of the quotient is estimated from the leading
words alone. An estimate is a single word. Where the leading words of the remainder so far and of the
divisor agree it would need one bit more, which is lost, and the remainder that is left is not that of
the dividend. In all other steps an estimate is put right, and the step is exact.
-/

namespace TreeQuery.Decimal

/-- The remainder after one more word of the dividend, where `r` is the remainder before it. A lost
bit of the estimate stands for `2 ^ 32` times the divisor, of which only the leading word has been
taken away. -/
def remainderStep (d r word : Nat) : Nat :=
  let n := r * twoTo 32 + word
  if r / twoTo 64 < d / twoTo 64 then n % d else (n + d % twoTo 64 * twoTo 32) % d

/-- The remainder of a dividend of so many words. -/
def longRemainder (d n : Nat) : Nat → Nat
  | 0 => 0
  | words + 1 => remainderStep d (longRemainder d (n / twoTo 32) words) (n % twoTo 32)

/-- The remainder of `m` by `d`. A long divisor is shifted so that it fills three words. A mantissa with
28 more places, shifted as far, has seven. -/
def remainder (m d : Nat) : Nat :=
  if d < twoTo 64 then m % d
  else
    let shift := twoTo (95 - d.log2)
    longRemainder (d * shift) (m * shift) 7 / shift

/-- A step is exact as long as the leading words differ. -/
theorem remainderStep_eq_mod {d r : Nat} (word : Nat) (h : r / twoTo 64 < d / twoTo 64) :
    remainderStep d r word = (r * twoTo 32 + word) % d := if_pos h

/-- A remainder is less than the divisor. -/
theorem longRemainder_lt {d : Nat} (hd : 0 < d) (n words : Nat) : longRemainder d n words < d := by
  cases words with
  | zero => exact hd
  | succ words =>
    simp only [longRemainder, remainderStep]
    split <;> exact Nat.mod_lt _ hd

/-- A remainder is less than the divisor, long or short. -/
theorem remainder_lt (m : Nat) {d : Nat} (hd : 0 < d) : remainder m d < d := by
  simp only [remainder]
  split
  · exact Nat.mod_lt _ hd
  · have hp := twoTo_pos (95 - d.log2)
    exact Nat.div_lt_of_lt_mul (Nat.mul_comm .. ▸ longRemainder_lt (Nat.mul_pos hd hp) ..)

end TreeQuery.Decimal
