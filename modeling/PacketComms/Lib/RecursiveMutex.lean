import Mathlib.Tactic.Common

universe u

/-- A recursive mutex: free, or held by one thread `extra + 1` times. -/
inductive RecursiveMutex (θ : Type u)
  | free
  | held (owner : θ) (extra : Nat)
  deriving DecidableEq

namespace RecursiveMutex

variable {θ : Type u} [DecidableEq θ]

/-- `none` while another thread holds the mutex: the caller blocks. -/
def acquire (m : RecursiveMutex θ) (t : θ) : Option (RecursiveMutex θ) :=
  match m with
  | free => some (held t 0)
  | held owner extra => if owner = t then some (held owner (extra + 1)) else none

/-- Gives back one of the holder's acquisitions. Only the holder may do so. -/
def release (m : RecursiveMutex θ) (t : θ) : Option (RecursiveMutex θ) :=
  match m with
  | free => none
  | held owner 0 => if owner = t then some free else none
  | held owner (extra + 1) => if owner = t then some (held owner extra) else none

/-- How many times `t` holds the mutex. -/
def heldBy (m : RecursiveMutex θ) (t : θ) : Nat :=
  match m with
  | free => 0
  | held owner extra => if owner = t then extra + 1 else 0

@[simp] theorem heldBy_free (t : θ) : (free : RecursiveMutex θ).heldBy t = 0 := rfl

theorem heldBy_pos {m : RecursiveMutex θ} {t : θ} (held : 0 < m.heldBy t) : ∃ extra, m = .held t extra := by
  cases m with
  | free => cases held
  | held owner extra =>
    simp only [heldBy] at held
    split at held
    · rename_i same
      exact ⟨extra, by rw [same]⟩
    · cases held

/-- Mutual exclusion. -/
theorem heldBy_unique {m : RecursiveMutex θ} {t u : θ} (ht : 0 < m.heldBy t) (hu : 0 < m.heldBy u) :
    t = u := by
  obtain ⟨extra, here⟩ := heldBy_pos ht
  obtain ⟨extra', there⟩ := heldBy_pos hu
  rw [here] at there
  cases there
  rfl

theorem acquire_eq_some {m m' : RecursiveMutex θ} {t : θ} (run : m.acquire t = some m') :
    m = free ∧ m' = held t 0 ∨ ∃ extra, m = held t extra ∧ m' = held t (extra + 1) := by
  cases m with
  | free => exact Or.inl ⟨rfl, (Option.some.inj run).symm⟩
  | held owner extra =>
    obtain ⟨rfl, same⟩ := Option.ite_none_right_eq_some.mp run
    exact Or.inr ⟨extra, rfl, (Option.some.inj same).symm⟩

theorem release_eq_some {m m' : RecursiveMutex θ} {t : θ} (run : m.release t = some m') :
    m = held t 0 ∧ m' = free ∨ ∃ extra, m = held t (extra + 1) ∧ m' = held t extra := by
  cases m with
  | free => cases run
  | held owner extra =>
    cases extra with
    | zero =>
      obtain ⟨rfl, same⟩ := Option.ite_none_right_eq_some.mp run
      exact Or.inl ⟨rfl, (Option.some.inj same).symm⟩
    | succ extra =>
      obtain ⟨rfl, same⟩ := Option.ite_none_right_eq_some.mp run
      exact Or.inr ⟨extra, rfl, (Option.some.inj same).symm⟩

theorem acquire_heldBy {m m' : RecursiveMutex θ} {t : θ} (run : m.acquire t = some m') (u : θ) :
    m'.heldBy u = m.heldBy u + if u = t then 1 else 0 := by
  rcases acquire_eq_some run with ⟨rfl, rfl⟩ | ⟨extra, rfl, rfl⟩ <;> simp only [heldBy, eq_comm (a := u)] <;>
    split <;> rfl

theorem release_heldBy {m m' : RecursiveMutex θ} {t : θ} (run : m.release t = some m') (u : θ) :
    m.heldBy u = m'.heldBy u + if u = t then 1 else 0 := by
  rcases release_eq_some run with ⟨rfl, rfl⟩ | ⟨extra, rfl, rfl⟩ <;> simp only [heldBy, eq_comm (a := u)] <;>
    split <;> rfl

/-- A thread that acquires the mutex finds no other thread holding it. -/
theorem acquire_excludes {m m' : RecursiveMutex θ} {t u : θ} (run : m.acquire t = some m')
    (other : u ≠ t) : m.heldBy u = 0 := by
  have after := acquire_heldBy run
  have owner : 0 < m'.heldBy t := by rw [after t, if_pos rfl]; omega
  by_contra positive
  have above : 0 < m'.heldBy u := by rw [after u]; omega
  exact other (heldBy_unique above owner)

theorem release_exists {m : RecursiveMutex θ} {t : θ} (held : 0 < m.heldBy t) :
    ∃ m', m.release t = some m' := by
  obtain ⟨extra, rfl⟩ := heldBy_pos held
  cases extra with
  | zero => exact ⟨_, if_pos rfl⟩
  | succ extra => exact ⟨_, if_pos rfl⟩

theorem acquire_exists {m : RecursiveMutex θ} {t : θ} (others : ∀ u, u ≠ t → m.heldBy u = 0) :
    ∃ m', m.acquire t = some m' := by
  cases m with
  | free => exact ⟨_, rfl⟩
  | held owner extra =>
    by_cases same : owner = t
    · exact ⟨_, if_pos same⟩
    · simpa [heldBy] using others owner same

/-- Whose last acquisition is given back leaves the mutex free. -/
theorem release_last {m m' : RecursiveMutex θ} {t u : θ} (run : m.release u = some m') (before : 0 < m.heldBy t)
    (after : m'.heldBy t = 0) : m' = free := by
  rcases release_eq_some run with ⟨rfl, rfl⟩ | ⟨extra, rfl, rfl⟩
  · rfl
  · simp only [heldBy] at before after
    split at before <;> simp_all

/-- An acquisition that is given back leaves no trace. -/
theorem release_acquire {m m' : RecursiveMutex θ} {t : θ} (run : m.acquire t = some m') : m'.release t = some m := by
  rcases acquire_eq_some run with ⟨rfl, rfl⟩ | ⟨extra, rfl, rfl⟩ <;> exact if_pos rfl

/-- The mutex without what `t` holds of it. -/
def without (m : RecursiveMutex θ) (t : θ) : RecursiveMutex θ :=
  match m with
  | free => free
  | held owner extra => if owner = t then free else held owner extra

theorem without_of_heldBy {m : RecursiveMutex θ} {t : θ} (none : m.heldBy t = 0) : m.without t = m := by
  cases m with
  | free => rfl
  | held owner extra =>
    refine if_neg (fun same => ?_)
    simp [heldBy, same] at none

/-- What `t` does with the mutex is not seen without `t`, -/
theorem acquire_without_self {m m' : RecursiveMutex θ} {t : θ} (run : m.acquire t = some m') :
    m'.without t = m.without t := by
  rcases acquire_eq_some run with ⟨rfl, rfl⟩ | ⟨extra, rfl, rfl⟩ <;> simp [without]

theorem release_without_self {m m' : RecursiveMutex θ} {t : θ} (run : m.release t = some m') :
    m'.without t = m.without t := by
  rcases release_eq_some run with ⟨rfl, rfl⟩ | ⟨extra, rfl, rfl⟩ <;> simp [without]

/-- and what another thread does with it can be done without `t`. -/
theorem acquire_without {m m' : RecursiveMutex θ} {t u : θ} (run : m.acquire t = some m') (other : t ≠ u) :
    (m.without u).acquire t = some (m'.without u) := by
  rcases acquire_eq_some run with ⟨rfl, rfl⟩ | ⟨extra, rfl, rfl⟩ <;> simp [without, acquire, other]

theorem release_without {m m' : RecursiveMutex θ} {t u : θ} (run : m.release t = some m') (other : t ≠ u) :
    (m.without u).release t = some (m'.without u) := by
  rcases release_eq_some run with ⟨rfl, rfl⟩ | ⟨extra, rfl, rfl⟩ <;> simp [without, release, other]

end RecursiveMutex
