import Mathlib.Tactic.Common

universe u

/-- A mutex that is not recursive: free, or held by one thread. -/
inductive Mutex (θ : Type u)
  | free
  | held (owner : θ)
  deriving DecidableEq

namespace Mutex

variable {θ : Type u}

/-- `none` while a thread holds the mutex, also if it is the caller. -/
def acquire (m : Mutex θ) (t : θ) : Option (Mutex θ) :=
  match m with
  | free => some (held t)
  | held _ => none

/-- Only the holder may give the mutex back. -/
def release [DecidableEq θ] (m : Mutex θ) (t : θ) : Option (Mutex θ) :=
  match m with
  | free => none
  | held owner => if owner = t then some free else none

theorem acquire_eq_some {m m' : Mutex θ} {t : θ} (run : m.acquire t = some m') : m = free ∧ m' = held t := by
  cases m with
  | free => exact ⟨rfl, (Option.some.inj run).symm⟩
  | held owner => simp [acquire] at run

theorem release_eq_some [DecidableEq θ] {m m' : Mutex θ} {t : θ} (run : m.release t = some m') :
    m = held t ∧ m' = free := by
  cases m with
  | free => simp [release] at run
  | held owner =>
    simp only [release] at run
    split at run
    · rename_i same
      exact ⟨by rw [same], (Option.some.inj run).symm⟩
    · simp at run

section Steps

variable {σ : Type*} {m : Mutex θ} {t : θ} {f : Mutex θ → σ} {s : σ}

/-- A step that begins with taking the mutex. -/
theorem acquire_map_eq_some (run : (m.acquire t).map f = some s) : m = free ∧ s = f (held t) := by
  obtain ⟨m', acquired, rfl⟩ := Option.map_eq_some_iff.mp run
  obtain ⟨unlocked, rfl⟩ := acquire_eq_some acquired
  exact ⟨unlocked, rfl⟩

/-- A step that gives the mutex back. -/
theorem release_map_eq_some [DecidableEq θ] (run : (m.release t).map f = some s) : m = held t ∧ s = f free := by
  obtain ⟨m', released, rfl⟩ := Option.map_eq_some_iff.mp run
  obtain ⟨locked, rfl⟩ := release_eq_some released
  exact ⟨locked, rfl⟩

end Steps

/-- The threads that, by what they are doing, must hold the mutex are those that hold it. -/
def Agrees (m : Mutex θ) (holds : θ → Prop) : Prop := ∀ t, holds t ↔ m = held t

variable {m : Mutex θ} {holds holds' : θ → Prop} {t u : θ}

/-- Mutual exclusion. -/
theorem Agrees.exclusive (agrees : m.Agrees holds) (ht : holds t) (hu : holds u) : t = u := by
  have owner : held t = held u := ((agrees t).mp ht).symm.trans ((agrees u).mp hu)
  cases owner
  rfl

theorem Agrees.acquired (agrees : Agrees free holds) (now : holds' t) (others : ∀ u, u ≠ t → (holds' u ↔ holds u)) :
    (held t).Agrees holds' := by
  intro u
  by_cases same : u = t
  · subst same
    simp [now]
  · rw [others u same, agrees u]
    simp [Ne.symm same]

theorem Agrees.released (agrees : (held t).Agrees holds) (gone : ¬ holds' t)
    (others : ∀ u, u ≠ t → (holds' u ↔ holds u)) : Agrees free holds' := by
  intro u
  by_cases same : u = t
  · subst same
    simp [gone]
  · rw [others u same, agrees u]
    simp [Ne.symm same]

theorem Agrees.kept (agrees : m.Agrees holds) (same : ∀ u, holds' u ↔ holds u) : m.Agrees holds' := by
  intro u
  rw [same, agrees u]

end Mutex
