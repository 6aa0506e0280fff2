import Mathlib.Data.List.Forall2
import TreeQuery.Proofs.Token.Next

/-!
# Where tokens stand

The tokens of a text stand one behind another inside it, so a token is known by its offset, and the end
of the text is told from all of them. Apart from their offsets the tokens of a text depend only on the
text, and on whether it is spaced from what precedes it.
-/

namespace TreeQuery

/-- Tokens that differ at most in where they stand. -/
structure Token.Alike (t t' : Token) : Prop where
  kind : t.kind = t'.kind
  text : t.text = t'.text
  spaced : t.spaced = t'.spaced

/-- What holds of texts without tokens, and of a text if it does of what is left behind its first token,
holds of all texts. -/
theorem token_induction {P : List Char → Prop} (eof : ∀ cs, nextKind cs = .eof → P cs)
    (token : ∀ cs, nextKind cs ≠ .eof → P (afterToken cs) → P cs) (cs : List Char) : P cs := by
  induction hn : cs.length using Nat.strongRecOn generalizing cs with
  | ind n ih =>
    by_cases h : nextKind cs = .eof
    · exact eof cs h
    · exact token cs h (ih _ (hn ▸ (Cursor.mk cs 0).next_rest_lt h) _ rfl)

namespace Cursor

variable {cs : List Char} {offset : Nat}

private theorem byteLength_consumed_add (cs : List Char) :
    byteLength (consumed cs) + byteLength (afterToken cs) = byteLength cs := by
  rw [← byteLength_append, consumed_append]

/-- Tokens stand inside their text. -/
theorem offset_of_mem_tokens (cs : List Char) (offset : Nat) :
    ∀ t ∈ (Cursor.mk cs offset).tokens, offset ≤ t.offset ∧ t.offset < offset + byteLength cs := by
  induction cs using token_induction generalizing offset with
  | eof cs h =>
    rw [tokens_of_eof h]
    exact List.forall_mem_nil _
  | token cs h ih =>
    have hsplit := byteLength_consumed_add cs
    have hlt := byteLength_lt_consumed h
    rw [tokens_of_not_eof h, List.forall_mem_cons]
    refine ⟨⟨Nat.le_add_right _ _, by dsimp only; omega⟩, fun t ht => ?_⟩
    have hlater := ih _ t ht
    omega

/-- There are no more of them than characters. -/
theorem length_tokens_le (cs : List Char) (offset : Nat) :
    (Cursor.mk cs offset).tokens.length ≤ cs.length := by
  induction cs using token_induction generalizing offset with
  | eof cs h =>
    rw [tokens_of_eof h]
    exact Nat.zero_le _
  | token cs h ih =>
    have hlt : (afterToken cs).length < cs.length := (Cursor.mk cs 0).next_rest_lt h
    rw [tokens_of_not_eof h, List.length_cons]
    exact Nat.lt_of_le_of_lt (ih _) hlt

/-- They stand one behind another. -/
theorem pairwise_tokens (cs : List Char) (offset : Nat) :
    (Cursor.mk cs offset).tokens.Pairwise fun t u => t.offset < u.offset := by
  induction cs using token_induction generalizing offset with
  | eof cs h =>
    rw [tokens_of_eof h]
    exact List.Pairwise.nil
  | token cs h ih =>
    have hlt := byteLength_lt_consumed h
    rw [tokens_of_not_eof h, List.pairwise_cons]
    refine ⟨fun t ht => ?_, ih _⟩
    have hlater := (offset_of_mem_tokens _ _ t ht).1
    dsimp only
    omega

end Cursor

/-! ### Places -/

/-- The token at a place of a text; all places behind the tokens are the end. -/
def tokenAt (source : List Char) (k : Nat) : Token :=
  (tokenize source)[k]?.getD { kind := .eof, text := "", offset := byteLength source, spaced := false }

private theorem offset_lt_of_lt {source : List Char} {j k : Nat} (hj : j < (tokenize source).length)
    (h : j < k) :
    (tokenAt source j).offset < (tokenAt source k).offset := by
  have hat : tokenAt source j = (tokenize source)[j] := by
    rw [tokenAt, List.getElem?_eq_getElem hj, Option.getD_some]
  rw [hat]
  by_cases hk : k < (tokenize source).length
  · rw [tokenAt, List.getElem?_eq_getElem hk, Option.getD_some]
    exact List.pairwise_iff_getElem.mp (Cursor.pairwise_tokens source 0) j k hj hk h
  · rw [tokenAt, List.getElem?_eq_none (Nat.le_of_not_lt hk), Option.getD_none]
    have hinside := (Cursor.offset_of_mem_tokens source 0 _ (List.getElem_mem hj)).2
    rwa [Nat.zero_add] at hinside

/-- Behind the last token there is the end of the text. -/
theorem tokenAt_of_le {source : List Char} {k : Nat} (h : (tokenize source).length ≤ k) :
    tokenAt source k =
      { kind := .eof, text := "", offset := byteLength source, spaced := false } := by
  rw [tokenAt, List.getElem?_eq_none h, Option.getD_none]

/-- The same offset is the same place, or both places are the end. -/
theorem offset_eq_iff {source : List Char} {j k : Nat} :
    (tokenAt source j).offset = (tokenAt source k).offset ↔
      j = k ∨ (tokenize source).length ≤ j ∧ (tokenize source).length ≤ k := by
  constructor
  · intro h
    by_contra hne
    rw [not_or] at hne
    rcases Nat.lt_or_gt_of_ne hne.1 with hlt | hlt
    · exact absurd h (Nat.ne_of_lt (offset_lt_of_lt (by omega) hlt))
    · exact absurd h (Nat.ne_of_gt (offset_lt_of_lt (by omega) hlt))
  · rintro (rfl | ⟨hj, hk⟩)
    · rfl
    · rw [tokenAt_of_le hj, tokenAt_of_le hk]

variable {a b : List Char}

/-- Texts with the same tokens have the same one at every place. -/
theorem Token.alike_tokenAt (h : List.Forall₂ Token.Alike (tokenize a) (tokenize b)) (k : Nat) :
    (tokenAt a k).Alike (tokenAt b k) := by
  have hlength := h.length_eq
  by_cases hk : k < (tokenize a).length
  · rw [tokenAt, tokenAt, List.getElem?_eq_getElem hk, List.getElem?_eq_getElem (hlength ▸ hk)]
    exact (List.forall₂_iff_get.mp h).2 k hk (hlength ▸ hk)
  · rw [tokenAt_of_le (Nat.le_of_not_lt hk), tokenAt_of_le (hlength ▸ Nat.le_of_not_lt hk)]
    exact ⟨rfl, rfl, rfl⟩

/-- In texts with tokens that are alike the same places have the same offset. -/
theorem offset_eq_iff_of_alike (h : List.Forall₂ Token.Alike (tokenize a) (tokenize b)) (j k : Nat) :
    (tokenAt a j).offset = (tokenAt a k).offset ↔ (tokenAt b j).offset = (tokenAt b k).offset := by
  rw [offset_eq_iff, offset_eq_iff, h.length_eq]

end TreeQuery
