import TreeQuery.Proofs.Evaluation.Lookups
import TreeQuery.Proofs.Text.Search

/-!
# Cutting texts

`contains`, `substring-before` and `substring-after` read the same cut of a text: the one at the first
occurrence of the pattern. So the two sides with the pattern between them are the text again, and they are
empty where the pattern does not occur.
-/

namespace TreeQuery.Eval

/-- An expression with a text: it evaluates to a string, or to what is read as one. -/
def HasText (c : Context) (e : Expr) (t : String) : Prop :=
  ∃ value, valueIn .library c e = .ok value ∧ value.textArgument c.forest = .ok t

/-- `contains(text, pattern)` -/
def contains (text pattern : Expr) : Expr := readBy (.simple "contains") text pattern

/-- `substring-before(text, pattern)` -/
def substringBefore (text pattern : Expr) : Expr := readBy (.simple "substring-before") text pattern

/-- `substring-after(text, pattern)` -/
def substringAfter (text pattern : Expr) : Expr := readBy (.simple "substring-after") text pattern

/-- `concat(substring-before(text, pattern), pattern, substring-after(text, pattern))` -/
def joinedAgain (text pattern : Expr) : Expr :=
  .call (.simple "concat")
    [.value (substringBefore text pattern), .value pattern, .value (substringAfter text pattern)]

variable {c : Context} {text pattern before after : Expr} {t p b a : String}

/-! ### Functions of texts -/

private theorem hasText_of_string (h : valueIn .library c text = .ok (.string t)) : HasText c text t :=
  ⟨.string t, h, rfl⟩

/-- A function that reads two texts gives what its rule says of them. -/
theorem valueIn_onTexts {name : String} (rule : String → String → Item)
    (hname : constructorType? (.simple name) = none)
    (hf : Registry.library.resolve? (.simple name) = some (.binary name fun forest x y => do
      let t ← x.textArgument forest
      let p ← y.textArgument forest
      return rule t p))
    (hdepth : c.depth < c.limits.depth) (ht : HasText c text t) (hp : HasText c pattern p) :
    valueIn .library c (readBy (.simple name) text pattern) = (rule t p).toResult := by
  obtain ⟨x, hx, htext⟩ := ht
  obtain ⟨y, hy, hpattern⟩ := hp
  rw [valueIn_readBy hname hf hdepth hx hy, htext]
  dsimp only [bind, Except.bind]
  rw [hpattern]
  rfl

private theorem valueIn_contains (hdepth : c.depth < c.limits.depth) (ht : HasText c text t)
    (hp : HasText c pattern p) :
    valueIn .library c (contains text pattern) = .ok (.boolean (Text.occurs p.toList t.toList)) :=
  valueIn_onTexts (fun t p => .boolean (Text.occurs p.toList t.toList)) rfl
    ((Registry.resolve?_library_simple _).trans rfl) hdepth ht hp

private theorem valueIn_substringBefore (hdepth : c.depth < c.limits.depth) (ht : HasText c text t)
    (hp : HasText c pattern p) :
    valueIn .library c (substringBefore text pattern) =
      .ok (.string (String.ofList ((Text.cut p.toList t.toList).elim [] Prod.fst))) :=
  valueIn_onTexts (fun t p => .string (String.ofList ((Text.cut p.toList t.toList).elim [] Prod.fst))) rfl
    ((Registry.resolve?_library_simple _).trans rfl) hdepth ht hp

private theorem valueIn_substringAfter (hdepth : c.depth < c.limits.depth) (ht : HasText c text t)
    (hp : HasText c pattern p) :
    valueIn .library c (substringAfter text pattern) =
      .ok (.string (String.ofList ((Text.cut p.toList t.toList).elim [] Prod.snd))) :=
  valueIn_onTexts (fun t p => .string (String.ofList ((Text.cut p.toList t.toList).elim [] Prod.snd))) rfl
    ((Registry.resolve?_library_simple _).trans rfl) hdepth ht hp

private theorem valueIn_joinedAgain (hdepth : c.depth < c.limits.depth) (hp : HasText c pattern p)
    (hb : valueIn .library c (substringBefore text pattern) = .ok (.string b))
    (ha : valueIn .library c (substringAfter text pattern) = .ok (.string a)) :
    valueIn .library c (joinedAgain text pattern) = .ok (.string (b ++ p ++ a)) := by
  obtain ⟨x, hx, htext⟩ := hp
  have hf : Registry.library.resolve? (.simple "concat") =
      some { name := "concat", least := 2, most := LibraryFunction.unlimited,
             run := fun _ args => .reading fun c => Library.concatenated c.forest args } :=
    (Registry.resolve?_library_simple _).trans rfl
  have hes : List.Forall₂ (fun e v => valueIn .library c e = .ok v)
      [substringBefore text pattern, pattern, substringAfter text pattern]
      [.string b, x, .string a] := .cons hb (.cons hx (.cons ha .nil))
  have hcall : valueIn .library c (joinedAgain text pattern) =
      Library.concatenated c.forest [.string b, x, .string a] >>= Item.toResult :=
    (valueIn_call rfl hf rfl hdepth hes rfl :)
  have htexts : [Item.string b, x, .string a].mapM (fun x => x.textArgument c.forest) =
      .ok [b, p, a] := by
    rw [List.mapM_cons, List.mapM_cons, List.mapM_cons, List.mapM_nil, htext]
    rfl
  rw [hcall, Library.concatenated, htexts]
  change Except.ok (Item.string ("" ++ b ++ p ++ a)) = _
  rw [String.empty_append]

/-! ### The cut -/

/-- A text contains a pattern exactly if the part before it, the pattern and the part after it are the text
when they are put together again. Then the part before it and the pattern are the shortest part at the
beginning of the text that ends with the pattern. Where the pattern does not occur, both parts are empty. -/
theorem cut_at_first_occurrence (hdepth : c.depth < c.limits.depth) (ht : HasText c text t)
    (hp : HasText c pattern p) :
    ∃ found before after,
      valueIn .library c (contains text pattern) = .ok (.boolean found) ∧
      valueIn .library c (substringBefore text pattern) = .ok (.string before) ∧
      valueIn .library c (substringAfter text pattern) = .ok (.string after) ∧
      valueIn .library c (joinedAgain text pattern) = .ok (.string (before ++ p ++ after)) ∧
      (found = true ↔ p.toList <:+: t.toList) ∧
      (found = true ↔ before ++ p ++ after = t) ∧
      (found = true → (before ++ p).toList <+: t.toList ∧
        ∀ start, start <+: t.toList → p.toList <:+ start →
          (before ++ p).toList.length ≤ start.length) ∧
      (found = false → before = "" ∧ after = "") := by
  have hcontains := valueIn_contains hdepth ht hp
  have hbefore := valueIn_substringBefore hdepth ht hp
  have hafter := valueIn_substringAfter hdepth ht hp
  have hjoined := valueIn_joinedAgain hdepth hp hbefore hafter
  refine ⟨_, _, _, hcontains, hbefore, hafter, hjoined, Text.occurs_iff, ?_⟩
  cases hcut : Text.cut p.toList t.toList with
  | none =>
    have hoccurs : Text.occurs p.toList t.toList = false := by rw [Text.occurs, hcut]; rfl
    have hne : p ≠ t := by
      rintro rfl
      exact Text.cut_eq_none_iff.mp hcut List.infix_rfl
    simp [hoccurs, hne]
  | some parts =>
    obtain ⟨b, a⟩ := parts
    have hoccurs : Text.occurs p.toList t.toList = true := by rw [Text.occurs, hcut]; rfl
    have hwhole : String.ofList b ++ p ++ String.ofList a = t := by
      rw [← String.toList_inj, Text.eq_of_cut hcut]
      simp
    have hstart : (String.ofList b ++ p).toList = b ++ p.toList := by simp
    rw [hoccurs, Option.elim_some, Option.elim_some, hstart]
    refine ⟨iff_of_true rfl hwhole, fun _ => ⟨Text.prefix_of_cut hcut, ?_⟩,
      fun hfound => absurd hfound (by decide)⟩
    exact fun start => Text.length_le_of_cut hcut

/-- The pattern overlaps with a part of itself that stands in front of its first occurrence, and its
characters are of different sizes. -/
theorem cut_at_first_occurrence_overlapping :
    let t := "éaéaéb€"
    let p := "éaéb"
    let text : Expr := .literal (.string t)
    let pattern : Expr := .literal (.string p)
    ({} : Context).depth < ({} : Context).limits.depth ∧ HasText {} text t ∧ HasText {} pattern p ∧
      valueIn .library {} (contains text pattern) = .ok (.boolean true) ∧
      valueIn .library {} (substringBefore text pattern) = .ok (.string "éa") ∧
      valueIn .library {} (joinedAgain text pattern) = .ok (.string t) := by
  intro t p text pattern
  have hdepth : ({} : Context).depth < ({} : Context).limits.depth := by decide
  have ht : HasText {} text t := hasText_of_string rfl
  have hp : HasText {} pattern p := hasText_of_string rfl
  obtain ⟨found, before, after, hcontains, hbefore, -, hjoined, hoccurs, hwhole, -⟩ :=
    cut_at_first_occurrence hdepth ht hp
  have hcut : Text.cut p.toList t.toList = some (['é', 'a'], ['€']) := by decide +kernel
  obtain rfl : found = true := hoccurs.mpr ⟨['é', 'a'], ['€'], (Text.eq_of_cut hcut).symm⟩
  refine ⟨hdepth, ht, hp, hcontains, ?_, ?_⟩
  · rw [valueIn_substringBefore hdepth ht hp, hcut]
    rfl
  · rw [hjoined, hwhole.mp rfl]

end TreeQuery.Eval
