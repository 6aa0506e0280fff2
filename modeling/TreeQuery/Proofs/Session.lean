import TreeQuery.Proofs.Evaluation.Unchanged
import TreeQuery.Session

/-!
# Lines of a session

Evaluating a line leaves the context as it was, so a session changes only where a line binds a variable.
Every other line may be left out, an expression as well as a binding that fails: the lines that remain
find the same session as before, and are answered alike. A line at which the program stops is the last
one of its session. What stood behind it was never taken, and would be if that line were left out.
-/

namespace TreeQuery

/-- The second list is the first one without some of the members that `p` holds of. -/
inductive Without {α : Type} (p : α → Prop) : List α → List α → Prop where
  | nil : Without p [] []
  | keep {a : α} {as bs : List α} (rest : Without p as bs) : Without p (a :: as) (a :: bs)
  | drop {a : α} {as bs : List α} (here : p a) (rest : Without p as bs) : Without p (a :: as) bs

namespace Without

variable {α : Type} {p : α → Prop} {as bs cs : List α}

private theorem refl (p : α → Prop) (as : List α) : Without p as as := by
  induction as with
  | nil => exact .nil
  | cons a as ih => exact .keep ih

private theorem append_right (h : Without p as bs) (cs : List α) : Without p (as ++ cs) (bs ++ cs) := by
  induction h with
  | nil => exact refl p cs
  | keep _ ih => exact .keep ih
  | drop here _ ih => exact .drop here ih

private theorem append_left (h : ∀ a ∈ as, p a) (bs : List α) : Without p (as ++ bs) bs := by
  induction as with
  | nil => exact refl p bs
  | cons a as ih =>
    rw [List.forall_mem_cons] at h
    exact .drop h.1 (ih h.2)

/-- What a filter takes away fails its test. -/
theorem filter (test : α → Bool) (as : List α) : Without (test · = false) as (as.filter test) := by
  induction as with
  | nil => exact .nil
  | cons a as ih =>
    by_cases ha : test a = true
    · rw [List.filter_cons_of_pos ha]
      exact .keep ih
    · rw [List.filter_cons_of_neg ha]
      exact .drop (Bool.not_eq_true _ ▸ ha) ih

end Without

/-- The value of a text leaves the context as it was, and so does an error in it. -/
theorem keeps_run {registry : Registry} (hr : registry.Keeps) (text : String) (c : Context) :
    (run registry text c).2 = c := by
  unfold run
  split
  · rfl
  · next e _ =>
    have hvalue : Eval.Keeps (Eval.evaluate registry e) :=
      Eval.keeps_get.bind fun c => (Eval.keeps_levels hr (Eval.levelsLeft c)).eval e
    have hresult : Eval.Keeps (Eval.result registry e) := hvalue.bind fun _ => Eval.keeps_reading _
    exact hresult c

namespace Session

variable {s : Session}

/-- Whether a line binds a variable: it asks for that, and does not fail. -/
def binds (s : Session) (line : String) : Bool :=
  match Text.behind? ":set " (Text.trim line.toList) with
  | some binding => (s.assign (String.ofList binding)).1.isOk
  | none => false

/-- The lines of a session up to the one that ends it, each with the session that it finds. -/
def history (s : Session) : List String → List (Session × String)
  | [] => []
  | line :: lines =>
    (s, line) :: if (s.take line).1.isLast then [] else (s.take line).2.history lines

/-- What a line is answered in the session that it finds. -/
def answer (found : Session × String) : Reply := (found.1.take found.2).1

/-- The lines of a session that bind a variable. -/
def settings (s : Session) (lines : List String) : List String :=
  ((s.history lines).filter fun found => found.1.binds found.2).map Prod.snd

private theorem replies_eq_history (s : Session) (lines : List String) :
    s.replies lines = (s.history lines).map answer := by
  induction lines generalizing s with
  | nil => rfl
  | cons line lines ih =>
    rw [replies, history, List.map_cons, apply_ite (List.map answer), List.map_nil, ← ih]
    rfl

/-! ### What a line changes -/

private theorem evaluate_snd (hr : s.registry.Keeps) (text : String) : (s.evaluate text).2 = s := by
  change { s with context := (run s.registry text s.context).2 } = s
  rw [keeps_run hr]

/-- Whatever comes of a binding, the functions stay. -/
theorem registry_assign (hr : s.registry.Keeps) (binding : String) :
    (s.assign binding).2.registry = s.registry := by
  unfold assign
  split
  · rfl
  · next name expression _ =>
    have hsame := evaluate_snd hr (String.ofList (Text.trim expression))
    generalize s.evaluate (String.ofList (Text.trim expression)) = outcome at hsame
    obtain ⟨result, t⟩ := outcome
    obtain rfl : t = s := hsame
    cases result with
    | error e => rfl
    | ok value =>
      dsimp only
      split <;> rfl

/-- A binding that fails binds nothing, at whatever point it does. -/
theorem assign_of_error (hr : s.registry.Keeps) {binding : String}
    (h : (s.assign binding).1.isOk = false) : (s.assign binding).2 = s := by
  unfold assign at h ⊢
  split
  · rfl
  · next name expression hcut =>
    simp only [hcut] at h
    have hsame := evaluate_snd hr (String.ofList (Text.trim expression))
    generalize s.evaluate (String.ofList (Text.trim expression)) = outcome at hsame h ⊢
    obtain ⟨result, t⟩ := outcome
    obtain rfl : t = s := hsame
    cases result with
    | error e => rfl
    | ok value =>
      dsimp only at h ⊢
      split
      · rfl
      · next context hcontext =>
        rw [hcontext] at h
        contradiction

/-- The session behind a line is that behind what the line carries out, if it carries out anything. -/
theorem take_snd (s : Session) (line : String) :
    (s.take line).2 = s ∨ (s.take line).2 = (s.carryOut (Text.trim line.toList)).2 := by
  unfold take
  dsimp only
  split
  · exact Or.inl rfl
  · split
    · exact Or.inl rfl
    · right
      generalize s.carryOut (Text.trim line.toList) = outcome
      obtain ⟨result, t⟩ := outcome
      cases result with
      | ok text => rfl
      | error e => cases e <;> rfl

private theorem registry_take (hr : s.registry.Keeps) (line : String) :
    (s.take line).2.registry = s.registry := by
  obtain hsame | hcarried := s.take_snd line
  · rw [hsame]
  · rw [hcarried, carryOut]
    split
    · exact registry_assign hr _
    · exact congrArg registry (evaluate_snd hr _)

/-- A line that binds no variable leaves the session as it was. -/
theorem take_of_not_binds (hr : s.registry.Keeps) {line : String} (h : s.binds line = false) :
    (s.take line).2 = s := by
  obtain hsame | hcarried := s.take_snd line
  · exact hsame
  · rw [hcarried, carryOut]
    unfold binds at h
    cases hbinding : Text.behind? ":set " (Text.trim line.toList) with
    | some binding =>
      rw [hbinding] at h
      exact assign_of_error hr h
    | none => exact evaluate_snd hr _

/-! ### Lines that are left out -/

/-- Lines that are taken before the session ends are followed by what is behind them. -/
theorem exists_history_append (s : Session) {before : List String}
    (h : ∀ reply ∈ s.replies before, reply.isLast = false) :
    ∃ t : Session, ∀ lines, s.history (before ++ lines) = s.history before ++ t.history lines := by
  induction before generalizing s with
  | nil => exact ⟨s, fun lines => rfl⟩
  | cons line before ih =>
    rw [replies, List.forall_mem_cons] at h
    obtain ⟨hgoes, hlater⟩ := h
    rw [← Bool.not_eq_true] at hgoes
    rw [if_neg hgoes] at hlater
    obtain ⟨t, ht⟩ := ih (s.take line).2 hlater
    refine ⟨t, fun lines => ?_⟩
    rw [List.cons_append, history, history, if_neg hgoes, if_neg hgoes, ht, List.cons_append]

/-- Lines that bind no variable may be left out: those that remain find the session that they found
before. -/
theorem history_without (hr : s.registry.Keeps) {lines : List String} {rest : List (Session × String)}
    (h : Without (fun found => found.1.binds found.2 = false) (s.history lines) rest) :
    s.history (rest.map Prod.snd) = rest := by
  induction lines generalizing s rest with
  | nil =>
    cases h
    rfl
  | cons line lines ih =>
    by_cases hlast : (s.take line).1.isLast
    · rw [history, if_pos hlast] at h
      cases h with
      | keep h =>
        cases h
        rw [List.map_cons, List.map_nil, history, if_pos hlast]
      | drop _ h =>
        cases h
        rfl
    · rw [history, if_neg hlast] at h
      have hr' : (s.take line).2.registry.Keeps := by rwa [registry_take hr]
      cases h with
      | keep h => rw [List.map_cons, history, if_neg hlast, ih hr' h]
      | drop hline h =>
        rw [take_of_not_binds hr hline] at h
        exact ih hr h

/-- Lines that bind no variable all find the same session. -/
theorem history_of_not_binds (hr : s.registry.Keeps) {lines : List String}
    (h : ∀ line ∈ lines, ¬(s.take line).1.isLast ∧ s.binds line = false) :
    s.history lines = lines.map fun line => (s, line) := by
  induction lines with
  | nil => rfl
  | cons line lines ih =>
    rw [List.forall_mem_cons] at h
    rw [history, if_neg h.1.1, take_of_not_binds hr h.1.2, ih h.2, List.map_cons]

/-- The lines of a session do not disturb each other. Lines that bind no variable may be left out, and
the others are answered as before. So what a line is answered depends on the line and on the lines before
it that bind a variable. -/
theorem replies_isolated (hr : s.registry.Keeps) :
    (∀ (lines : List String) (rest : List (Session × String)),
      Without (fun found => found.1.binds found.2 = false) (s.history lines) rest →
        s.replies (rest.map Prod.snd) = rest.map answer) ∧
      ∀ (before : List String) (line : String), (∀ reply ∈ s.replies before, reply.isLast = false) →
        (s.replies (before ++ [line])).getLast? = (s.replies (s.settings before ++ [line])).getLast? := by
  have hrest (lines : List String) (rest : List (Session × String))
      (h : Without (fun found => found.1.binds found.2 = false) (s.history lines) rest) :
      s.replies (rest.map Prod.snd) = rest.map answer := by
    rw [replies_eq_history, history_without hr h]
  refine ⟨hrest, fun before line hgoes => ?_⟩
  obtain ⟨t, ht⟩ := s.exists_history_append hgoes
  have hline : t.history [line] = [(t, line)] := by simp [history]
  have hfiltered := (Without.filter (fun found => found.1.binds found.2) (s.history before)).append_right
    [(t, line)]
  rw [← hline, ← ht] at hfiltered
  have hsettings := hrest _ _ hfiltered
  rw [hline, List.map_append, List.map_singleton] at hsettings
  rw [settings, hsettings, replies_eq_history, ht, hline]
  simp

/-- An expression, a blank line and bindings that fail, each at a point of its own, stand between a binding
and the line that reads it. -/
theorem replies_isolated_failures :
    let s : Session := ⟨Registry.library, {}⟩
    let t := (s.take ":set $x := 2").2
    let lines := [":set $x := 2", "$x + 1", ":set $x := 1 +", ":set $x := 1 div 0", "", ":set $x",
      ":set $5 := 3", "$x"]
    (s.registry.Keeps ∧
      Without (fun found => found.1.binds found.2 = false) (s.history lines)
        [(s, ":set $x := 2"), (t, "$x")] ∧
      ∀ reply ∈ s.replies [":set $x := 1 div 0"], reply.isLast = false) ∧
      s.replies [":set $x := 2", "$x"] = [.text "2", .text "2"] ∧
      (s.replies ([":set $x := 1 div 0"] ++ ["$x"])).getLast? =
        (s.replies (s.settings [":set $x := 1 div 0"] ++ ["$x"])).getLast? := by
  intro s t lines
  have hr : s.registry.Keeps := Registry.keeps_library
  have ht : t.registry.Keeps := by rwa [registry_take hr]
  have hgoesOn : ¬(s.take ":set $x := 2").1.isLast := by decide +kernel
  have hlater : ∀ line ∈ lines.tail, ¬(t.take line).1.isLast ∧ t.binds line = false := by
    decide +kernel
  have hhistory : s.history lines = (s, ":set $x := 2") :: lines.tail.map fun line => (t, line) := by
    rw [← history_of_not_binds ht hlater]
    exact congrArg _ (if_neg hgoesOn)
  have hwithout : Without (fun found => found.1.binds found.2 = false) (s.history lines)
      [(s, ":set $x := 2"), (t, "$x")] := by
    rw [hhistory]
    apply Without.keep
    have hleft : ∀ found ∈ lines.tail.dropLast.map fun line => (t, line),
        found.1.binds found.2 = false := by
      intro found hfound
      obtain ⟨line, hline, rfl⟩ := List.mem_map.mp hfound
      exact (hlater line (List.dropLast_subset _ hline)).2
    exact Without.append_left hleft [(t, "$x")]
  have hgoes : ∀ reply ∈ s.replies [":set $x := 1 div 0"], reply.isLast = false := by decide +kernel
  have hisolated := replies_isolated hr
  refine ⟨⟨hr, hwithout, hgoes⟩, ?_, hisolated.2 _ _ hgoes⟩
  have hanswers : [(s, ":set $x := 2"), (t, "$x")].map answer = [.text "2", .text "2"] := by
    decide +kernel
  rw [← hanswers]
  exact hisolated.1 _ _ hwithout

end Session

end TreeQuery
