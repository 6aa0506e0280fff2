import TreeQuery.Registry
import TreeQuery.Proofs.Token.QName

/-!
# Functions under their names

A function is found by its name as it is written, and by its name taken apart into a qualifier and a
local name. Both ways leave out the default qualifier, and a registration does so too. So they lead to
the same function, the one that was registered last under the name, whatever was registered before it.
-/

namespace TreeQuery

namespace Registry

/-! ### The default qualifier -/

/-- What is left of a name if one default qualifier in front of it is left out. -/
inductive IsBare : String → String → Prop where
  /-- There is one, and what is behind it is left. -/
  | qualified (bare : String) : IsBare ("fn:" ++ bare) bare
  /-- There is none, and all of the name is left. -/
  | plain {name : String} (h : ¬ "fn:".toList <+: name.toList) : IsBare name name

/-- Two names that are equal up to one default qualifier in front of each. -/
def SameName (a b : String) : Prop := ∃ bare, IsBare a bare ∧ IsBare b bare

private theorem withoutDefault_qualified (bare : String) : withoutDefault ("fn:" ++ bare) = bare := by
  have hlist : ("fn:" ++ bare).toList = defaultQualifier ++ bare.toList := String.toList_append
  rw [withoutDefault, hlist, if_pos (List.isPrefixOf_iff_prefix.mpr (List.prefix_append _ _)),
    List.drop_left, String.ofList_toList]

private theorem withoutDefault_plain {name : String} (h : ¬ "fn:".toList <+: name.toList) :
    withoutDefault name = name :=
  if_neg fun hstarts => h (List.isPrefixOf_iff_prefix.mp hstarts)

private theorem isBare_withoutDefault (name : String) : IsBare name (withoutDefault name) := by
  by_cases h : "fn:".toList <+: name.toList
  · obtain ⟨rest, hrest⟩ := h
    obtain rfl : name = "fn:" ++ String.ofList rest := by
      rw [← String.toList_inj, String.toList_append, @String.toList_ofList rest, hrest]
    rw [withoutDefault_qualified]
    exact .qualified _
  · rw [withoutDefault_plain h]
    exact .plain h

private theorem isBare_iff {name bare : String} : IsBare name bare ↔ withoutDefault name = bare := by
  constructor
  · rintro (_ | h)
    · exact withoutDefault_qualified bare
    · exact withoutDefault_plain h
  · rintro rfl
    exact isBare_withoutDefault name

private theorem sameName_iff {a b : String} : SameName a b ↔ withoutDefault a = withoutDefault b := by
  simp only [SameName, isBare_iff]
  exact ⟨fun ⟨_, ha, hb⟩ => ha.trans hb.symm, fun h => ⟨_, h, rfl⟩⟩

/-- A name that is taken apart is looked up like its text: a qualifier has no colon in it, so it is the
default one if and only if the text starts with that. -/
theorem resolve?_of_parse? (r : Registry) {text : String} {name : QName}
    (h : QName.parse? text = some name) : r.resolve? name = r.lookup? text := by
  obtain ⟨hlocal, hparts⟩ := (QName.wellFormed_of_parse? h).toList_render
  rw [QName.render_of_parse? h] at hparts
  have hcolon {cs : List Char} (hcs : IsName cs) : ':' ∉ cs := hcs.not_mem (by decide)
  rcases hparts with ⟨hnone, htext⟩ | ⟨q, hq, hqname, htext⟩
  · have hplain : ¬ "fn:".toList <+: text.toList := by
      rw [htext]
      exact fun hstarts => hcolon hlocal (hstarts.subset (by simp))
    rw [resolve?, if_pos (.inl hnone), lookup?, withoutDefault_plain hplain, String.toList_inj.mp htext]
  · by_cases hdefault : q = "fn"
    · have htext' : text = "fn:" ++ name.localName := by
        rw [← String.toList_inj, htext, hdefault, String.toList_append]
        rfl
      rw [resolve?, if_pos (.inr (hdefault ▸ hq)), lookup?, htext', withoutDefault_qualified]
    · have hplain : ¬ "fn:".toList <+: text.toList := by
        rintro ⟨rest, hrest⟩
        have hsplit := splitOnce_append (hcolon hqname) name.localName.toList
        rw [← htext, ← hrest] at hsplit
        have hsplit' := splitOnce_append (q := ['f', 'n']) (by decide) rest
        have hfn := (Prod.mk.inj (Option.some.inj (hsplit'.symm.trans hsplit))).1
        exact hdefault (String.toList_inj.mp hfn.symm)
      rw [resolve?, if_neg (by simp [hq, hdefault]), QName.render_of_parse? h, lookup?,
        withoutDefault_plain hplain]

/-! ### Histories -/

/-- A registration changes what is found under its name, and nothing else. -/
theorem find?_register (r : Registry) (f : LibraryFunction) (name : String) :
    (r.register f).find? name =
      if withoutDefault f.name = name then some { f with name := withoutDefault f.name }
      else r.find? name := by
  rw [find?, register, List.find?_append, List.find?_singleton]
  by_cases h : withoutDefault f.name = name
  · have hnone : (r.functions.filter fun g => g.name != withoutDefault f.name).find?
        (fun g => g.name == name) = none := by
      simp [h]
    rw [hnone, Option.none_or, if_pos (beq_iff_eq.mpr h), if_pos h]
  · have hsame : (r.functions.filter fun g => g.name != withoutDefault f.name).find?
        (fun g => g.name == name) = r.find? name := by
      rw [List.find?_filter, find?]
      congr 1
      funext g
      by_cases hg : g.name = name
      · simp [hg, Ne.symm h]
      · simp [hg]
    rw [hsame, if_neg (by simpa using h), Option.or_none, if_neg h]

/-- What a history of registrations leaves under a name: what was registered there last. -/
theorem find?_history (r : Registry) (history : List LibraryFunction) (name : String) :
    (history.foldl register r).find? name =
      ((history.reverse.find? fun f => withoutDefault f.name == name).map
        fun f => { f with name }).or (r.find? name) := by
  induction history generalizing r with
  | nil => rfl
  | cons f history ih =>
    rw [List.foldl_cons, ih, find?_register, List.reverse_cons, List.find?_append, Option.map_or,
      Option.or_assoc]
    congr 1
    by_cases h : withoutDefault f.name = name
    · simp [h]
    · simp [h]

/-- The registry that so many registrations make. Each may take the place of an earlier one. The library
is made in this way too, and functions of a host are registered behind those of the library. -/
def ofHistory (history : List LibraryFunction) : Registry := history.foldl register empty

private theorem find?_ofHistory (history : List LibraryFunction) (name : String) :
    (ofHistory history).find? name =
      (history.reverse.find? fun f => withoutDefault f.name == name).map fun f => { f with name } := by
  have hempty : empty.find? name = none := rfl
  rw [ofHistory, find?_history, hempty, Option.or_none]

/-- What is found under a name was registered there, and nothing was registered there after it. -/
theorem find?_ofHistory_eq_some_iff {history : List LibraryFunction} {name : String}
    {entry : LibraryFunction} :
    (ofHistory history).find? name = some entry ↔
      ∃ before f after, history = before ++ f :: after ∧ withoutDefault f.name = name ∧
        (∀ g ∈ after, withoutDefault g.name ≠ name) ∧ entry = { f with name } := by
  rw [find?_ofHistory, Option.map_eq_some_iff]
  constructor
  · rintro ⟨f, hf, rfl⟩
    obtain ⟨hname, after, before, hsplit, hafter⟩ := List.find?_eq_some_iff_append.mp hf
    refine ⟨before.reverse, f, after.reverse, ?_, beq_iff_eq.mp hname, ?_, rfl⟩
    · rw [← List.reverse_reverse history, hsplit]
      simp
    · intro g hg
      simpa using hafter g (List.mem_reverse.mp hg)
  · rintro ⟨before, f, after, rfl, hname, hafter, rfl⟩
    refine ⟨f, List.find?_eq_some_iff_append.mpr ⟨beq_iff_eq.mpr hname, after.reverse,
      before.reverse, by simp, ?_⟩, rfl⟩
    intro g hg
    simpa using hafter g (List.mem_reverse.mp hg)

private theorem find?_ofHistory_eq_none_iff {history : List LibraryFunction} {name : String} :
    (ofHistory history).find? name = none ↔ ∀ f ∈ history, withoutDefault f.name ≠ name := by
  rw [find?_ofHistory, Option.map_eq_none_iff, List.find?_eq_none]
  simp

/-! ### The names in order -/

private theorem nodup_register {r : Registry} (h : (r.functions.map LibraryFunction.name).Nodup)
    (f : LibraryFunction) : ((r.register f).functions.map LibraryFunction.name).Nodup := by
  have hkept : ((r.functions.filter fun g => g.name != withoutDefault f.name).map
      LibraryFunction.name).Nodup := h.sublist (List.filter_sublist.map _)
  rw [register, List.map_append, List.nodup_append]
  refine ⟨hkept, List.pairwise_singleton _ _, ?_⟩
  intro name hname name' hname'
  obtain ⟨g, hg, rfl⟩ := List.mem_map.mp hname
  rw [List.mem_singleton.mp hname']
  simpa using (List.mem_filter.mp hg).2

private theorem mem_names {r : Registry} {name : String} :
    name ∈ r.names ↔ ∃ f ∈ r.functions, f.name = name := by
  rw [names, (List.mergeSort_perm _ _).mem_iff, List.mem_map]

private theorem find?_eq_none_iff {r : Registry} {name : String} : r.find? name = none ↔
    name ∉ r.names := by
  rw [find?, List.find?_eq_none, mem_names]
  simp

/-- The names are sorted, and none of them stands there twice. -/
theorem sorted_names {r : Registry} (h : (r.functions.map LibraryFunction.name).Nodup) :
    r.names.Pairwise (· < ·) := by
  have hnodup : r.names.Nodup := (List.mergeSort_perm _ _).nodup_iff.mpr h
  have hnotLess (a b : String) : (!decide (b < a)) = true ↔ a ≤ b := by
    rw [Bool.not_eq_true', decide_eq_false_iff_not, String.not_lt]
  have hle : r.names.Pairwise (· ≤ ·) := by
    refine (List.pairwise_mergeSort ?_ ?_ _).imp fun h => (hnotLess _ _).mp h
    · intro a b c hab hbc
      rw [hnotLess] at hab hbc ⊢
      exact String.le_trans hab hbc
    · intro a b
      rw [Bool.or_eq_true, hnotLess, hnotLess]
      exact String.le_total a b
  exact (hle.and hnodup).imp fun h => Std.lt_of_le_of_ne h.1 h.2

private theorem nodup_ofHistory (history : List LibraryFunction) :
    ((ofHistory history).functions.map LibraryFunction.name).Nodup := by
  have hfold (r : Registry) (hr : (r.functions.map LibraryFunction.name).Nodup) :
      ((history.foldl register r).functions.map LibraryFunction.name).Nodup := by
    induction history generalizing r with
    | nil => exact hr
    | cons f history ih => exact ih (r.register f) (nodup_register hr f)
  exact hfold empty List.nodup_nil

/-- The names that stand in a registry are those that were registered, without the default qualifier. -/
theorem mem_names_ofHistory {history : List LibraryFunction} {name : String} :
    name ∈ (ofHistory history).names ↔ ∃ f ∈ history, withoutDefault f.name = name := by
  rw [← not_iff_not, ← find?_eq_none_iff, find?_ofHistory_eq_none_iff]
  simp

/-! ### Both ways to a function -/

/-- Whatever was registered before, a name and its text lead to the same function. It is the one that
was registered last under that name, up to one default qualifier in front of each of the two names, and
if there was none nothing is found. The names of a registry come in their order, each of them once, and
they are those that functions stand under. -/
theorem lookups_agree (history : List LibraryFunction) {text : String} {name : QName}
    (h : QName.parse? text = some name) :
    (ofHistory history).lookup? text = (ofHistory history).resolve? name ∧
    (∀ entry, (ofHistory history).lookup? text = some entry ↔
      ∃ before f after bare, history = before ++ f :: after ∧ IsBare f.name bare ∧ IsBare text bare ∧
        (∀ g ∈ after, ¬ SameName g.name text) ∧ entry = { f with name := bare }) ∧
    ((ofHistory history).lookup? text = none ↔ ∀ f ∈ history, ¬ SameName f.name text) ∧
    (ofHistory history).names.Pairwise (· < ·) ∧
    ∀ n, (n ∈ (ofHistory history).names ↔ ∃ f ∈ (ofHistory history).functions, f.name = n) ∧
      (n ∈ (ofHistory history).names ↔ ∃ f ∈ history, IsBare f.name n) := by
  simp only [sameName_iff, isBare_iff]
  refine ⟨(resolve?_of_parse? _ h).symm, fun entry => ?_, find?_ofHistory_eq_none_iff,
    sorted_names (nodup_ofHistory history), fun n => ⟨mem_names, mem_names_ofHistory⟩⟩
  rw [lookup?, find?_ofHistory_eq_some_iff]
  constructor
  · rintro ⟨before, f, after, hsplit, hname, hafter, hentry⟩
    exact ⟨before, f, after, _, hsplit, hname, rfl, hafter, hentry⟩
  · rintro ⟨before, f, after, bare, hsplit, hname, rfl, hafter, hentry⟩
    exact ⟨before, f, after, hsplit, hname, hafter, hentry⟩

/-- A function of a host that takes so many arguments and gives a number. -/
def answer (name : String) (arguments : Nat) : LibraryFunction :=
  ⟨name, arguments, arguments, fun _ _ => pure (.integer 42)⟩

/-- Of two functions that are registered under one name, once with the default qualifier and once without
it, the later one is found. A name with two default qualifiers is another name. -/
theorem lookups_agree_replaced :
    QName.parse? "fn:answer" = some ⟨some "fn", "answer"⟩ ∧
    (ofHistory [answer "fn:answer" 0, answer "answer" 1, answer "fn:fn:answer" 2]).lookup? "fn:answer" =
      some (answer "answer" 1) ∧
    (ofHistory [answer "fn:answer" 0, answer "answer" 1, answer "fn:fn:answer" 2]).resolve?
      ⟨some "fn", "answer"⟩ = some (answer "answer" 1) := by
  have hparse : QName.parse? "fn:answer" = some ⟨some "fn", "answer"⟩ := by decide
  obtain ⟨hsame, hfound, -⟩ := lookups_agree
    [answer "fn:answer" 0, answer "answer" 1, answer "fn:fn:answer" 2] hparse
  have hlast := (hfound (answer "answer" 1)).mpr ⟨[answer "fn:answer" 0], answer "answer" 1,
    [answer "fn:fn:answer" 2], "answer", rfl, .plain (by decide), .qualified "answer", ?_, rfl⟩
  · exact ⟨hparse, hlast, hsame ▸ hlast⟩
  · simp only [List.mem_singleton, forall_eq, sameName_iff]
    decide

end Registry
end TreeQuery
