import Mathlib.Init

universe u v w x

/-- A machine whose actions name every choice that a scheduler or an environment makes.
`none` says that the action is not enabled in the state. -/
structure TransitionSystem (σ : Type u) (α : Type v) where
  start : σ
  step : σ → α → Option σ

namespace TransitionSystem

variable {σ : Type u} {α : Type v} {τ : Type w} {β : Type x}
variable {T : TransitionSystem σ α} {U : TransitionSystem τ β}

/-- The states of the runs all of whose steps meet `C`, a condition on the state
before the step and on the action. -/
inductive ReachUnder (T : TransitionSystem σ α) (C : σ → α → Prop) : σ → Prop
  | start : ReachUnder T C T.start
  | next {s a s'} : ReachUnder T C s → C s a → T.step s a = some s' → ReachUnder T C s'

/-- The states of all runs. -/
abbrev Reach (T : TransitionSystem σ α) : σ → Prop := T.ReachUnder (fun _ _ => True)

theorem ReachUnder.mono {C D : σ → α → Prop} {s : σ} (reach : T.ReachUnder C s)
    (weaker : ∀ s a, C s a → D s a) : T.ReachUnder D s := by
  induction reach with
  | start => exact .start
  | next _ met run ih => exact .next ih (weaker _ _ met) run

theorem ReachUnder.forget {C : σ → α → Prop} {s : σ} (reach : T.ReachUnder C s) : T.Reach s :=
  reach.mono (fun _ _ _ => trivial)

/-- The invariant rule. The step may use that its source is itself reached, so
invariants can be proved one after another. -/
theorem ReachUnder.invariant {C : σ → α → Prop} {I : σ → Prop} {s : σ} (reach : T.ReachUnder C s)
    (base : I T.start)
    (keep : ∀ {s a s'}, T.ReachUnder C s → I s → C s a → T.step s a = some s' → I s') : I s := by
  induction reach with
  | start => exact base
  | next before met run ih => exact keep before ih met run

/-- Runs a list of actions, if each of them is enabled in its turn. -/
def run (T : TransitionSystem σ α) (s : σ) : List α → Option σ
  | [] => some s
  | a :: actions => (T.step s a).bind (fun s' => T.run s' actions)

theorem run_append (s : σ) (before after : List α) :
    T.run s (before ++ after) = (T.run s before).bind (fun s' => T.run s' after) := by
  induction before generalizing s with
  | nil => rfl
  | cons a before ih =>
    simp only [List.cons_append, run]
    cases T.step s a with
    | none => rfl
    | some s' => exact ih s'

theorem run_trans {s s' s'' : σ} {before after : List α} (first : T.run s before = some s')
    (second : T.run s' after = some s'') : T.run s (before ++ after) = some s'' := by
  rw [run_append, first]
  exact second

/-- A run into the states that meet `P` crosses into them at some step. -/
theorem run_crosses {P : σ → Prop} {s s' : σ} {actions : List α} (run : T.run s actions = some s') (outside : ¬ P s)
    (inside : P s') : ∃ before a after m m', actions = before ++ a :: after ∧ T.run s before = some m ∧ ¬ P m ∧
      T.step m a = some m' ∧ P m' ∧ T.run m' after = some s' := by
  induction actions generalizing s with
  | nil =>
    cases Option.some.inj run
    exact absurd inside outside
  | cons a actions ih =>
    obtain ⟨middle, step, rest⟩ := Option.bind_eq_some_iff.mp run
    by_cases crossed : P middle
    · exact ⟨[], a, actions, s, middle, rfl, rfl, outside, step, crossed, rest⟩
    · obtain ⟨before, b, after, m, m', split, first, there, cross, here, last⟩ := ih rest crossed
      refine ⟨a :: before, b, after, m, m', by rw [split, List.cons_append], ?_, there, cross, here, last⟩
      rw [TransitionSystem.run, step]
      exact first

theorem ReachUnder.run {C : σ → α → Prop} {s s' : σ} {actions : List α} (reach : T.ReachUnder C s)
    (met : ∀ a ∈ actions, ∀ s, C s a) (run : T.run s actions = some s') : T.ReachUnder C s' := by
  induction actions generalizing s with
  | nil => cases Option.some.inj run; exact reach
  | cons a actions ih =>
    obtain ⟨middle, step, rest⟩ := Option.bind_eq_some_iff.mp run
    exact ih (.next reach (met a List.mem_cons_self s) step)
      (fun b member => met b (List.mem_cons_of_mem a member)) rest

/-- A run that has been computed, known by one thing about its last state. -/
theorem ReachUnder.computed {C : σ → α → Prop} {ρ : Type*} {s : σ} {r : ρ} (reach : T.ReachUnder C s)
    (f : σ → ρ) (actions : List α) (met : ∀ a ∈ actions, ∀ s, C s a)
    (value : (T.run s actions).map f = some r) : ∃ s', T.ReachUnder C s' ∧ f s' = r := by
  obtain ⟨s', run, last⟩ := Option.map_eq_some_iff.mp value
  exact ⟨s', reach.run met run, last⟩

/-- Runs a list of actions, if each of them is enabled and meets `C` in its turn. -/
def runUnder (T : TransitionSystem σ α) (C : σ → α → Prop) [∀ s a, Decidable (C s a)] (s : σ) : List α → Option σ
  | [] => some s
  | a :: actions => if C s a then (T.step s a).bind (fun s' => T.runUnder C s' actions) else none

/-- The same, where the condition depends on the state. -/
theorem ReachUnder.checked {C : σ → α → Prop} [∀ s a, Decidable (C s a)] {ρ : Type*} {s : σ} {r : ρ}
    (reach : T.ReachUnder C s) (f : σ → ρ) (actions : List α) (value : (T.runUnder C s actions).map f = some r) :
    ∃ s', T.ReachUnder C s' ∧ f s' = r := by
  induction actions generalizing s with
  | nil => exact ⟨s, reach, Option.some.inj value⟩
  | cons a actions ih =>
    simp only [runUnder] at value
    split at value
    · rename_i met
      rw [Option.map_bind] at value
      obtain ⟨middle, step, rest⟩ := Option.bind_eq_some_iff.mp value
      exact ih (.next reach met step) rest
    · cases value

/-- Every step of `T` under `C` is a step of `U` under `D`, or one that `U` does not see. -/
structure Simulation (T : TransitionSystem σ α) (U : TransitionSystem τ β)
    (C : σ → α → Prop) (D : τ → β → Prop) (R : σ → τ → Prop) : Prop where
  start : R T.start U.start
  step {s a s' t} : T.ReachUnder C s → R s t → C s a → T.step s a = some s' →
    R s' t ∨ ∃ b t', D t b ∧ U.step t b = some t' ∧ R s' t'

/-- What a simulation gives: whatever holds of the reachable states of `U` holds
of the related states of `T`. -/
theorem Simulation.reach {C : σ → α → Prop} {D : τ → β → Prop} {R : σ → τ → Prop}
    (sim : Simulation T U C D R) {s : σ} (reach : T.ReachUnder C s) : ∃ t, U.ReachUnder D t ∧ R s t := by
  induction reach with
  | start => exact ⟨_, .start, sim.start⟩
  | next before met step ih =>
    obtain ⟨t, there, related⟩ := ih
    rcases sim.step before related met step with unseen | ⟨b, t', met', step', related'⟩
    · exact ⟨t, there, unseen⟩
    · exact ⟨t', .next there met' step', related'⟩

end TransitionSystem
