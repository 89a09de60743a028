import Mathlib.Data.List.Nodup
import Mathlib.Logic.Function.Basic

universe u v

/-- A map from keys to sequences in which a key may be present with an empty
sequence. The order of `keys` carries no meaning for the reader: iteration may
follow any permutation of it. -/
structure KeyedLists (κ : Type u) (α : Type v) where
  keys : List κ
  get : κ → List α
  nodup : keys.Nodup
  absent : ∀ k, k ∉ keys → get k = []

namespace KeyedLists

variable {κ : Type u} {α : Type v}

def empty : KeyedLists κ α := ⟨[], fun _ => [], .nil, fun _ _ => rfl⟩

@[simp] theorem get_empty (k : κ) : (empty : KeyedLists κ α).get k = [] := rfl

theorem mem_keys_of_mem {m : KeyedLists κ α} {k : κ} {a : α} (member : a ∈ m.get k) : k ∈ m.keys := by
  by_contra out
  rw [m.absent k out] at member
  simp at member

/-- The keys of a list under which there is something. -/
def filled (get : κ → List α) (keys : List κ) : List κ :=
  keys.filter (fun k => get k ≠ [])

section Filled

variable {get get' : κ → List α} {k : κ} {keys : List κ}

theorem filled_cons_of_empty (empty : get k = []) : filled get (k :: keys) = filled get keys := by
  simp [filled, empty]

theorem filled_cons_of_filled (nonempty : get k ≠ []) : filled get (k :: keys) = k :: filled get keys := by
  simp [filled, nonempty]

/-- Where sequences only become empty, it does not matter what was there before. -/
theorem filled_filled (shrinks : ∀ k, get k = [] → get' k = []) :
    filled get' (filled get keys) = filled get' keys := by
  simp only [filled, List.filter_filter]
  refine List.filter_congr (fun k _ => ?_)
  by_cases empty : get k = []
  · simp [empty, shrinks k empty]
  · simp [empty]

/-- Two maps with the same sequences differ in keys that have none, so the others can be visited
in the same order. -/
theorem exists_order {m n : KeyedLists κ α} (same : n.get = m.get) (perm : keys.Perm m.keys) :
    ∃ keys', keys'.Perm n.keys ∧ filled m.get keys' = filled m.get keys := by
  have present : ∀ k, m.get k ≠ [] → (k ∈ m.keys ↔ k ∈ n.keys) := by
    intro k nonempty
    have left : k ∈ m.keys := by
      by_contra out
      exact nonempty (m.absent k out)
    have right : k ∈ n.keys := by
      by_contra out
      exact nonempty (same ▸ n.absent k out)
    exact iff_of_true left right
  have others : (filled m.get keys).Perm (filled m.get n.keys) := by
    refine (perm.filter _).trans ((List.perm_ext_iff_of_nodup (m.nodup.filter _) (n.nodup.filter _)).mpr (fun k => ?_))
    simp only [List.mem_filter, decide_eq_true_eq]
    exact and_congr_left (present k)
  refine ⟨filled m.get keys ++ n.keys.filter (fun k => !decide (m.get k ≠ [])), ?_, ?_⟩
  · exact (others.append_right _).trans (List.filter_append_perm _ n.keys)
  · rw [filled, List.filter_append, ← filled, filled, filled, List.filter_filter, List.filter_filter]
    simp

end Filled

variable [DecidableEq κ]

/-- Looks a key up and, if it is absent, inserts it with the empty sequence. -/
def touch (m : KeyedLists κ α) (k : κ) : KeyedLists κ α :=
  if present : k ∈ m.keys then m
  else
    { keys := m.keys ++ [k]
      get := m.get
      nodup := List.nodup_append.mpr ⟨m.nodup, List.nodup_singleton k, by
        intro a member b single same
        rw [List.mem_singleton] at single
        exact present (single ▸ same ▸ member)⟩
      absent := fun j out => m.absent j (fun member => out (List.mem_append_left _ member)) }

theorem mem_keys_touch (m : KeyedLists κ α) (k : κ) : k ∈ (m.touch k).keys := by
  unfold touch
  split
  · assumption
  · simp

/-- A key that is present is only looked up. -/
theorem touch_of_mem {m : KeyedLists κ α} {k : κ} (present : k ∈ m.keys) : m.touch k = m := dif_pos present

theorem mem_of_touch_eq {m : KeyedLists κ α} {k : κ} (same : m.touch k = m) : k ∈ m.keys := by
  have member := m.mem_keys_touch k
  rwa [same] at member

theorem mem_of_mem_keys_touch {m : KeyedLists κ α} {k j : κ} (member : j ∈ (m.touch k).keys) : j ∈ m.keys ∨ j = k := by
  unfold touch at member
  split at member
  · exact Or.inl member
  · simpa using member

theorem keys_sub_touch {m : KeyedLists κ α} {k j : κ} (member : j ∈ m.keys) : j ∈ (m.touch k).keys := by
  unfold touch
  split
  · exact member
  · exact List.mem_append_left _ member

theorem length_keys_touch (m : KeyedLists κ α) (k : κ) : (m.touch k).keys.length ≤ m.keys.length + 1 := by
  unfold touch
  split <;> simp

/-- Assigns the sequence under a key. -/
def set (m : KeyedLists κ α) (k : κ) (l : List α) : KeyedLists κ α :=
  { keys := (m.touch k).keys
    get := Function.update m.get k l
    nodup := (m.touch k).nodup
    absent := by
      intro j out
      have other : j ≠ k := fun same => out (same ▸ m.mem_keys_touch k)
      rw [Function.update_of_ne other]
      exact m.absent j (fun member => out (m.keys_sub_touch member)) }

@[simp] theorem get_touch (m : KeyedLists κ α) (k j : κ) : (m.touch k).get j = m.get j := by
  unfold touch
  split <;> rfl

@[simp] theorem get_set (m : KeyedLists κ α) (k : κ) (l : List α) :
    (m.set k l).get = Function.update m.get k l := rfl

@[simp] theorem set_touch (m : KeyedLists κ α) (k : κ) (l : List α) : (m.touch k).set k l = m.set k l := by
  unfold set
  congr 1
  · rw [touch_of_mem (m.mem_keys_touch k)]
  · funext j
    by_cases same : j = k
    · rw [same, Function.update_self, Function.update_self]
    · rw [Function.update_of_ne same, Function.update_of_ne same, get_touch]

@[simp] theorem keys_set (m : KeyedLists κ α) (k : κ) (l : List α) : (m.set k l).keys = (m.touch k).keys := rfl

end KeyedLists
