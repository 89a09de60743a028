import PacketComms.Lib.TransitionSystem

universe u v w

namespace TransitionSystem

variable {σ : Type u} {α : Type v} {γ : Type w}

/-- A symmetric relation between the states of one system, in which a step of either side is
answered by steps of the other one that show the same. -/
structure WeakBisimulation (T : TransitionSystem σ α) (shown : α → Option γ) (R : σ → σ → Prop) : Prop where
  symm {s t} : R s t → R t s
  answer {s t a s'} : R s t → T.step s a = some s' →
    ∃ answers t', answers.filterMap shown = [a].filterMap shown ∧ T.run t answers = some t' ∧ R s' t'

/-- Whole runs are answered as well. -/
theorem WeakBisimulation.run {T : TransitionSystem σ α} {shown : α → Option γ} {R : σ → σ → Prop}
    (bisimulation : WeakBisimulation T shown R) {s t s' : σ} {actions : List α} (related : R s t)
    (run : T.run s actions = some s') :
    ∃ answers t', answers.filterMap shown = actions.filterMap shown ∧ T.run t answers = some t' ∧ R s' t' := by
  induction actions generalizing s t with
  | nil =>
    cases Option.some.inj run
    exact ⟨[], t, rfl, rfl, related⟩
  | cons a actions ih =>
    obtain ⟨middle, step, rest⟩ := Option.bind_eq_some_iff.mp run
    obtain ⟨first, t₁, same, there, related₁⟩ := bisimulation.answer related step
    obtain ⟨later, t₂, same', there', related₂⟩ := ih related₁ rest
    refine ⟨first ++ later, t₂, ?_, run_trans there there', related₂⟩
    rw [List.filterMap_append, same, same', ← List.filterMap_append, List.singleton_append]

end TransitionSystem
