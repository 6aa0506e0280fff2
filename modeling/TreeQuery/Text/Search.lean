/-!
# Searching in texts

`cut` divides a text at the first occurrence of a pattern. Containment, splitting at a separator
and the two halves of a split are all read off it. `behind?` is for a pattern that has to come first.
-/

namespace TreeQuery.Text

/-- What stands before and after the first occurrence of `pattern`. -/
def cut (pattern : List Char) : List Char → Option (List Char × List Char)
  | [] => if pattern.isEmpty then some ([], []) else none
  | c :: cs =>
    if pattern.isPrefixOf (c :: cs) then some ([], (c :: cs).drop pattern.length)
    else (cut pattern cs).map fun (before, after) => (c :: before, after)

/-- Whether `pattern` occurs in the text. -/
def occurs (pattern text : List Char) : Bool := (cut pattern text).isSome

/-- What stands before and after the first `separator`. -/
def splitOnce (separator : Char) (text : List Char) : Option (List Char × List Char) :=
  cut [separator] text

/-- What is left of a text that starts with a mark. -/
def behind? (mark : String) (text : List Char) : Option (List Char) :=
  if mark.toList.isPrefixOf text then some (text.drop mark.toList.length) else none

/-- A cut keeps everything: the two parts and the pattern between them are the text. -/
theorem eq_of_cut {pattern text before after : List Char}
    (h : cut pattern text = some (before, after)) : text = before ++ pattern ++ after := by
  induction text generalizing before with
  | nil =>
    simp only [cut] at h
    split at h
    · next he =>
      obtain ⟨rfl, rfl⟩ : [] = before ∧ [] = after := by simpa using h
      simpa using (List.isEmpty_iff.mp he).symm
    · simp at h
  | cons c cs ih =>
    simp only [cut] at h
    split at h
    · next hp =>
      obtain ⟨rest, hr⟩ := List.isPrefixOf_iff_prefix.mp hp
      obtain ⟨rfl, rfl⟩ : [] = before ∧ (c :: cs).drop pattern.length = after := by simpa using h
      rw [← hr]
      simp
    · obtain ⟨⟨b, a⟩, hb, he⟩ := Option.map_eq_some_iff.mp h
      obtain ⟨rfl, rfl⟩ : c :: b = before ∧ a = after := by simpa using he
      rw [ih hb]
      simp

end TreeQuery.Text
