import Mathlib.Data.List.Infix
import TreeQuery.Text.Search

/-!
# The first occurrence of a pattern

A cut finds a pattern exactly if it occurs, and finds it as early as it can be found: no shorter part at the
beginning of the text ends with the pattern, however the pattern overlaps with itself.
-/

namespace TreeQuery.Text

variable {pattern text before after : List Char}

/-- A text is not cut where the pattern does not occur. -/
theorem cut_eq_none_iff : cut pattern text = none ↔ ¬ pattern <:+: text := by
  induction text with
  | nil =>
    rw [cut, List.infix_nil, ← List.isEmpty_iff]
    cases pattern.isEmpty <;> simp
  | cons c cs ih =>
    rw [cut, List.infix_cons_iff, ← List.isPrefixOf_iff_prefix, not_or]
    cases pattern.isPrefixOf (c :: cs) with
    | true => simp
    | false => simp [ih]

/-- A pattern occurs in a text if it is a part of it. -/
theorem occurs_iff : occurs pattern text = true ↔ pattern <:+: text := by
  rw [occurs, Option.isSome_iff_ne_none, ne_eq, cut_eq_none_iff, not_not]

/-- What is in front of the cut and the pattern start the text. -/
theorem prefix_of_cut (h : cut pattern text = some (before, after)) : before ++ pattern <+: text :=
  ⟨after, (eq_of_cut h).symm⟩

/-- Whatever stands at the beginning of the text and ends with the pattern is as long as the part up to the
end of the first occurrence. -/
theorem length_le_of_cut (h : cut pattern text = some (before, after)) {start : List Char}
    (hstart : start <+: text) (hend : pattern <:+ start) :
    (before ++ pattern).length ≤ start.length := by
  induction text generalizing before start with
  | nil =>
    obtain rfl := List.prefix_nil.mp hstart
    exact (prefix_of_cut h).length_le
  | cons c cs ih =>
    rw [cut] at h
    split at h
    · obtain ⟨rfl, -⟩ := Prod.ext_iff.mp (Option.some.inj h)
      exact hend.length_le
    · next hprefix =>
      rw [List.isPrefixOf_iff_prefix] at hprefix
      obtain ⟨⟨later, _⟩, hlater, hcons⟩ := Option.map_eq_some_iff.mp h
      obtain ⟨rfl, rfl⟩ := Prod.ext_iff.mp hcons
      -- The pattern is no prefix of the text, so it ends behind the first character and begins there.
      rcases List.prefix_cons_iff.mp hstart with rfl | ⟨start, rfl, hrest⟩
      · obtain rfl := List.suffix_nil.mp hend
        exact absurd List.nil_prefix hprefix
      · rcases List.suffix_cons_iff.mp hend with rfl | hend
        · exact absurd hstart hprefix
        · exact Nat.succ_le_succ (ih hlater hrest hend)

end TreeQuery.Text
