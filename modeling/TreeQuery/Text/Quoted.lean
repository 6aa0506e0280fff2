/-!
# Quoted text

In a quoted text a quote is written twice. `double` writes the inside, `collapse` reads it back,
and `unquote` takes a whole literal apart: reading what was written gives the text again.
-/

namespace TreeQuery.Text

/-- Writes every quote twice and everything else once. -/
def double (q : Char) : List Char → List Char
  | [] => []
  | c :: cs => if c = q then q :: q :: double q cs else c :: double q cs

/-- Reads every doubled quote, from the left, as one. -/
def collapse (q : Char) : List Char → List Char
  | c :: d :: cs => if c = q ∧ d = q then q :: collapse q cs else c :: collapse q (d :: cs)
  | cs => cs

/-- A text between quotes. -/
def quote (q : Char) (cs : List Char) : List Char := q :: double q cs ++ [q]

/-- The text that a literal stands for: what is between its first and last character, with the
doubled first character collapsed. Nothing is left of a literal shorter than two characters, or of
one whose ends are not single bytes. -/
def unquote : List Char → List Char
  | q :: c :: cs =>
    if q.utf8Size = 1 ∧ ((c :: cs).getLast?.any fun e => e.utf8Size = 1) then
      collapse q (c :: cs).dropLast
    else []
  | _ => []

/-- The string in double quotes. -/
def quoted (s : String) : String := String.ofList (quote '\x22' s.toList)

/-- Collapsing undoes doubling. -/
theorem collapse_double (q : Char) (cs : List Char) : collapse q (double q cs) = cs := by
  induction cs with
  | nil => rfl
  | cons c cs ih =>
    by_cases h : c = q
    · subst h
      simp only [double, if_true, collapse, and_self, ih]
    · cases hd : double q cs with
      | nil =>
        have hcs : cs = [] := by
          cases cs with
          | nil => rfl
          | cons d ds => simp only [double] at hd; split at hd <;> exact absurd hd (by simp)
        subst hcs
        simp [double, h, collapse]
      | cons d ds =>
        rw [hd] at ih
        simp only [double, h, if_false, hd, collapse, false_and, ih]

end TreeQuery.Text
