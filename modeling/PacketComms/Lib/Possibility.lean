import PacketComms.Lib.TransitionSystem
import Mathlib.Order.WellFounded

universe u v w

namespace TransitionSystem

variable {σ : Type u} {α : Type v} {T : TransitionSystem σ α}

/-- From the state some sequence of the permitted actions leads to a state that meets `P`. -/
inductive CanReach (T : TransitionSystem σ α) (C : α → Prop) (P : σ → Prop) : σ → Prop
  | here {s} : P s → CanReach T C P s
  | step {s a s'} : C a → T.step s a = some s' → CanReach T C P s' → CanReach T C P s

namespace CanReach

variable {C : α → Prop} {P Q J : σ → Prop}

theorem trans {s : σ} (first : T.CanReach C Q s) (second : ∀ t, Q t → T.CanReach C P t) : T.CanReach C P s := by
  induction first with
  | here goal => exact second _ goal
  | step permitted run _ ih => exact .step permitted run ih

/-- The rule for reaching a goal: as long as it is not reached, some permitted step leads to it or
makes the rank smaller. -/
theorem of_rank {ρ : Type w} [Preorder ρ] [WellFoundedLT ρ] (rank : σ → ρ)
    (progress : ∀ s, J s → P s ∨ ∃ a s', C a ∧ T.step s a = some s' ∧ (P s' ∨ J s' ∧ rank s' < rank s)) {s : σ}
    (inside : J s) : T.CanReach C P s := by
  induction bound : rank s using WellFoundedLT.induction generalizing s with
  | ind r ih =>
    rcases progress s inside with goal | ⟨a, s', permitted, run, goal | ⟨still, smaller⟩⟩
    · exact .here goal
    · exact .step permitted run (.here goal)
    · exact .step permitted run (ih (rank s') (bound ▸ smaller) still rfl)

theorem exists_run {s : σ} (can : T.CanReach C P s) :
    ∃ actions s', (∀ a ∈ actions, C a) ∧ T.run s actions = some s' ∧ P s' := by
  induction can with
  | @here s goal => exact ⟨[], s, nofun, rfl, goal⟩
  | @step s a s' permitted run _ ih =>
    obtain ⟨actions, last, all, rest, goal⟩ := ih
    refine ⟨a :: actions, last, List.forall_mem_cons.mpr ⟨permitted, all⟩, ?_, goal⟩
    rw [TransitionSystem.run, run]
    exact rest

/-- The rule for not reaching it: a set without a goal that no permitted step leaves. -/
theorem trapped (goalless : ∀ s, J s → ¬ P s) (closed : ∀ s a s', J s → C a → T.step s a = some s' → J s') {s : σ}
    (inside : J s) : ¬ T.CanReach C P s := by
  intro can
  induction can with
  | here goal => exact goalless _ inside goal
  | step permitted run _ ih => exact ih (closed _ _ _ inside permitted run)

end CanReach

end TransitionSystem
