import Mathlib.Data.List.Induction
import Mathlib.Data.List.Nodup
import TreeQuery.Item.Table

/-!
# Tables as finite maps

A table has one value for each of its keys, in the order in which the keys came. `put` changes the value
of one key and nothing else: a key that is there keeps its place, a new one comes last. Entries make a
table as they are, unless a key repeats; then the first one that does is named.
-/

namespace TreeQuery

/-- A list with a repetition has a first element that repeats. -/
theorem exists_first_repeat {α : Type} {as : List α} (h : ¬ as.Nodup) :
    ∃ before a after, as = before ++ a :: after ∧ before.Nodup ∧ a ∈ before := by
  induction as using List.reverseRecOn with
  | nil => exact absurd List.nodup_nil h
  | append_singleton as last ih =>
    by_cases has : as.Nodup
    · refine ⟨as, last, [], rfl, has, ?_⟩
      by_contra hlast
      exact h (has.append (List.nodup_singleton last) (List.disjoint_singleton.mpr hlast))
    · obtain ⟨before, a, after, rfl, hbefore, ha⟩ := ih has
      exact ⟨before, a, after ++ [last], List.append_assoc .., hbefore, ha⟩

namespace Table

variable {V : Type} {t u : Table V} {key : MapKey} {value : V}

/-! ### Values under keys -/

/-- A value that is found for a key stands in an entry with it. -/
theorem mem_of_get? (h : get? key t = some value) : (key, value) ∈ t := by
  induction t with
  | nil => contradiction
  | cons entry t ih =>
    obtain ⟨k, v⟩ := entry
    simp only [get?] at h
    split at h
    · next hk =>
      obtain rfl := Option.some.inj h
      rw [hk]
      exact List.mem_cons_self
    · exact List.mem_cons_of_mem _ (ih h)

/-- A value that is found is one of the values. -/
theorem mem_values_of_get? (h : get? key t = some value) : value ∈ values t :=
  List.mem_map_of_mem (mem_of_get? h)

/-- A table holds its keys and no others. -/
theorem holds_iff_mem_keys : holds key t = true ↔ key ∈ keys t := by
  induction t with
  | nil => simp [holds, get?, keys]
  | cons entry t ih =>
    obtain ⟨k, v⟩ := entry
    simp only [holds, get?, keys, List.map_cons, List.mem_cons] at ih ⊢
    split
    · next heq => simp [heq]
    · next hne => rw [ih, or_iff_right (Ne.symm hne)]

/-- Where keys do not repeat, the value of an entry is found for its key. -/
theorem get?_of_mem {entry : MapKey × V} (h : (keys t).Nodup) (hentry : entry ∈ t) :
    get? entry.1 t = some entry.2 := by
  induction t with
  | nil => contradiction
  | cons first t ih =>
    obtain ⟨hfirst, ht⟩ := List.nodup_cons.mp h
    rw [get?]
    rcases List.mem_cons.mp hentry with rfl | hmem
    · exact if_pos rfl
    · have hne : first.1 ≠ entry.1 := by
        intro heq
        exact hfirst (heq ▸ List.mem_map_of_mem hmem)
      rw [if_neg hne, ih ht hmem]

/-- A key stands in an entry. -/
theorem exists_mem_of_mem_keys (h : key ∈ keys t) : ∃ v, (key, v) ∈ t := by
  obtain ⟨⟨_, v⟩, hv, rfl⟩ := List.mem_map.mp h
  exact ⟨v, hv⟩

/-! ### Putting a value -/

/-- A value that is put into a table is found under its key, and what stands under the other keys stays. -/
theorem get?_put {V : Type} (t : Table V) (key other : MapKey) (value : V) :
    (t.put key value).get? other = if key = other then some value else t.get? other := by
  induction t with
  | nil => rfl
  | cons entry t ih =>
    obtain ⟨k, v⟩ := entry
    rw [put]
    split
    · next hk =>
      rw [hk, get?, get?]
      split <;> rfl
    · next hk =>
      rw [get?, get?, ih]
      split
      · next hother =>
        rw [if_neg fun heq => hk (hother.trans heq.symm)]
      · rfl

/-- The new value of a key that is there takes the place of the old one. -/
theorem put_of_mem (value : V) (h : key ∈ keys t) :
    ∃ before old after, t = before ++ (key, old) :: after ∧
      put key value t = before ++ (key, value) :: after := by
  induction t with
  | nil => contradiction
  | cons entry t ih =>
    obtain ⟨k, v⟩ := entry
    rw [put]
    split
    · next hk => exact ⟨[], v, t, by rw [hk]; rfl, by rw [hk]; rfl⟩
    · next hne =>
      obtain ⟨before, old, after, ht, hput⟩ := ih (List.mem_of_ne_of_mem (Ne.symm hne) h)
      exact ⟨(k, v) :: before, old, after, by rw [ht]; rfl, by rw [hput]; rfl⟩

/-- A new key comes last. -/
theorem put_of_not_mem (h : key ∉ keys t) : put key value t = t ++ [(key, value)] := by
  induction t with
  | nil => rfl
  | cons entry t ih =>
    obtain ⟨hne, ht⟩ := List.ne_and_not_mem_of_not_mem_cons h
    rw [put, if_neg (Ne.symm hne), ih ht]
    rfl

/-- Putting a value adds no other value. -/
theorem mem_values_put {v : V} (h : v ∈ values (put key value t)) : v = value ∨ v ∈ values t := by
  induction t with
  | nil => exact Or.inl (List.mem_singleton.mp h)
  | cons entry t ih =>
    obtain ⟨k, v'⟩ := entry
    simp only [put] at h
    split at h
    · exact (List.mem_cons.mp h).imp_right (List.mem_cons_of_mem _)
    · rcases List.mem_cons.mp h with rfl | h
      · exact Or.inr List.mem_cons_self
      · exact (ih h).imp_right (List.mem_cons_of_mem _)

/-- Keys stay different. -/
theorem nodup_put (h : (keys t).Nodup) : (keys (put key value t)).Nodup := by
  by_cases hkey : key ∈ keys t
  · obtain ⟨before, old, after, rfl, hput⟩ := put_of_mem value hkey
    rw [hput]
    simpa only [keys, List.map_append, List.map_cons] using h
  · rw [put_of_not_mem hkey, keys, List.map_append]
    exact h.append (List.nodup_singleton key) (List.disjoint_singleton.mpr hkey)

/-! ### Tables of entries -/

/-- Entries with new keys are added as they are. -/
theorem addNew_append {before : Table V} (h : (keys (t ++ before)).Nodup) (rest : List (MapKey × V)) :
    addNew t (before ++ rest) = addNew (t ++ before) rest := by
  induction before generalizing t with
  | nil => rw [List.append_nil, List.nil_append]
  | cons entry before ih =>
    obtain ⟨k, v⟩ := entry
    have hnew : ¬ holds k t = true := by
      rw [holds_iff_mem_keys]
      intro hmem
      rw [keys, List.map_append, List.nodup_append] at h
      exact h.2.2 k hmem k List.mem_cons_self rfl
    rw [List.append_cons] at h ⊢
    rw [List.cons_append, addNew, if_neg hnew, ih h]

/-- Entries with different keys make a table. -/
theorem ofEntries_of_nodup (h : (keys t).Nodup) : ofEntries t = .ok t := by
  have hadd := addNew_append (t := []) h []
  rwa [List.append_nil] at hadd

/-- A key that was there before is an error. -/
theorem ofEntries_of_repeat {before after : List (MapKey × V)} (h : (keys before).Nodup)
    (hkey : key ∈ keys before) :
    ofEntries (before ++ (key, value) :: after) = .error (.duplicateKey key.render) := by
  have hadd := addNew_append (t := []) h ((key, value) :: after)
  rw [ofEntries, hadd, List.nil_append, addNew, if_pos (holds_iff_mem_keys.mpr hkey)]

variable {entries : List (MapKey × V)}

private theorem exists_first_repeated_key (h : ¬ (keys entries).Nodup) :
    ∃ before key value after, entries = before ++ (key, value) :: after ∧ (keys before).Nodup ∧
      key ∈ keys before := by
  obtain ⟨_, key, _, hkeys, hbefore, hkey⟩ := exists_first_repeat h
  obtain ⟨before, rest, rfl, rfl, hrest⟩ := List.map_eq_append_iff.mp hkeys
  obtain ⟨⟨_, value⟩, after, rfl, rfl, rfl⟩ := List.map_eq_cons_iff.mp hrest
  exact ⟨before, _, value, after, rfl, hbefore, hkey⟩

/-- Entries make a table if their keys do not repeat, and they are the table then. -/
theorem ofEntries_eq_ok_iff : ofEntries entries = .ok t ↔ (keys entries).Nodup ∧ t = entries := by
  by_cases h : (keys entries).Nodup
  · rw [ofEntries_of_nodup h, Except.ok.injEq, and_iff_right h, eq_comm]
  · obtain ⟨before, key, value, after, rfl, hbefore, hkey⟩ := exists_first_repeated_key h
    rw [ofEntries_of_repeat hbefore hkey]
    exact iff_of_false nofun fun hboth => h hboth.1

/-- The key that is named is the first one that repeats. -/
theorem ofEntries_eq_error_iff {e : EvalError} :
    ofEntries entries = .error e ↔
      ∃ before key value after, entries = before ++ (key, value) :: after ∧ (keys before).Nodup ∧
        key ∈ keys before ∧ e = .duplicateKey key.render := by
  constructor
  · intro herror
    have h : ¬ (keys entries).Nodup := by
      intro h
      rw [ofEntries_of_nodup h] at herror
      contradiction
    obtain ⟨before, key, value, after, rfl, hbefore, hkey⟩ := exists_first_repeated_key h
    rw [ofEntries_of_repeat hbefore hkey] at herror
    exact ⟨before, key, value, after, rfl, hbefore, hkey, (Except.error.inj herror).symm⟩
  · rintro ⟨before, key, value, after, rfl, hbefore, hkey, rfl⟩
    exact ofEntries_of_repeat hbefore hkey

/-- The tables that are made of entries, and by putting values into tables any number of times. -/
inductive Made : Table V → Prop
  | ofEntries {entries : List (MapKey × V)} {t : Table V} (h : ofEntries entries = .ok t) : Made t
  | put {t : Table V} (h : Made t) (key : MapKey) (value : V) : Made (put key value t)

/-- In a table that was made of entries and by puts, keys do not repeat. -/
theorem Made.nodup (h : t.Made) : (keys t).Nodup := by
  induction h with
  | ofEntries h =>
    obtain ⟨hkeys, rfl⟩ := ofEntries_eq_ok_iff.mp h
    exact hkeys
  | put _ key value ih => exact nodup_put ih

end Table

end TreeQuery
