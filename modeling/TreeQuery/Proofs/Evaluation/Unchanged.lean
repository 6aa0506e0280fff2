import TreeQuery.Proofs.Evaluation.Keeping
import TreeQuery.Proofs.Library.Related

/-!
# The context after an evaluation

Every function of the library keeps the context, as everything does that is related to itself by the
relations that evaluation respects. So an evaluation over the library and over functions of a host that
keep the context leaves the context exactly as it was.
-/

namespace TreeQuery

open Eval

/-- Every function of the library keeps the context. -/
theorem Registry.keeps_library : library.Keeps := by
  intro f hf call hc args
  have hrelated := related_library (i := ()) congruence_keeps f hf call call
    (fun g args _ _ => ⟨hc g args, fun _ _ _ => trivial⟩) args fun _ _ => trivial
  exact hrelated.1

/-- What holds of the functions of a registry and of one that is added to it holds of all functions then. -/
theorem Registry.forall_mem_register {P : LibraryFunction → Prop} {r : Registry} {f : LibraryFunction}
    (hr : ∀ g ∈ r.functions, P g) (hf : P { f with name := withoutDefault f.name }) :
    ∀ g ∈ (r.register f).functions, P g := by
  intro g hg
  simp only [register, List.mem_append, List.mem_filter, List.mem_singleton] at hg
  obtain ⟨hg, -⟩ | rfl := hg
  · exact hr g hg
  · exact hf

/-- An evaluation leaves the context as it was, whatever its outcome, and so does a call from
outside. Of the functions that are registered beside those of the library it is assumed that they do
so too when the functions do that they call. -/
theorem Eval.context_unchanged (registry : Registry)
    (hhost : ∀ f ∈ registry.functions, f ∈ Registry.library.functions ∨ f.Keeps) :
    (∀ e c, ((evaluate registry e).run.run c).2 = c) ∧
      (∀ f args c, ((call registry f args).run.run c).2 = c) := by
  have hr : registry.Keeps := fun f hf => (hhost f hf).elim (Registry.keeps_library f) id
  constructor
  · intro e
    exact keeps_get.bind fun c => (keeps_levels hr _).eval e
  · intro f args
    exact keeps_get.bind fun c => (keeps_levels hr _).call f args

/-- A function of a host that binds a variable in a scope of its own and calls its argument there. -/
def Eval.hostCall : LibraryFunction :=
  .calling "host:call" 1 fun call args => inScope do
    bindVariable (.simple "x") (.integer 1)
    call (args.headD .nil) []

/-- The context survives an undefined variable in a body that a function of a host has called. -/
theorem Eval.context_unchanged_hostCall :
    (∀ f ∈ (Registry.library.register hostCall).functions,
      f ∈ Registry.library.functions ∨ f.Keeps) ∧
    ((evaluate (Registry.library.register hostCall)
      (.letIn [⟨.simple "y", .literal (.integer 1)⟩]
        (.call ⟨some "host", "call"⟩
          [.value (.inlineFunction [] none (.var (.simple "missing")))]))).run.run {}).2 = {} := by
  have hhost : ∀ f ∈ (Registry.library.register hostCall).functions,
      f ∈ Registry.library.functions ∨ f.Keeps := by
    intro f hf
    simp only [Registry.register, List.mem_append, List.mem_filter, List.mem_singleton] at hf
    obtain ⟨hf, -⟩ | rfl := hf
    · exact Or.inl hf
    · refine Or.inr fun call hc args => BindsOnly.keeps_inScope ?_
      exact (bindsOnly_bindVariable _ _).bind fun _ => (hc _ _).bindsOnly
  exact ⟨hhost, (context_unchanged _ hhost).1 _ _⟩

end TreeQuery
