import PacketComms.Lib.KeyedLists
import Mathlib.Algebra.BigOperators.Group.Finset.Basic
import Mathlib.Algebra.GroupWithZero.Nat

universe u v

namespace KeyedLists

variable {κ : Type u} {α : Type v}

/-- How many elements stand under all keys. -/
def total (m : KeyedLists κ α) : Nat := (m.keys.map (fun k => (m.get k).length)).sum

@[simp] theorem total_empty : (empty : KeyedLists κ α).total = 0 := rfl

theorem total_eq_zero {m : KeyedLists κ α} (none : ∀ k, m.get k = []) : m.total = 0 := by
  simp [total, none]

variable [DecidableEq κ]

/-- Keys without elements do not count. -/
theorem total_eq_sum (m : KeyedLists κ α) {s : Finset κ} (cover : ∀ k ∈ m.keys, k ∈ s) :
    m.total = ∑ k ∈ s, (m.get k).length := by
  have within : m.keys.toFinset ⊆ s := fun k member => cover k (List.mem_toFinset.mp member)
  calc m.total
      = ∑ k ∈ m.keys.toFinset, (m.get k).length := (List.sum_toFinset _ m.nodup).symm
    _ = ∑ k ∈ s, (m.get k).length := by
      refine Finset.sum_subset within (fun k _ out => ?_)
      rw [m.absent k (fun member => out (List.mem_toFinset.mpr member)), List.length_nil]

/-- The total depends on what the keys hold only. -/
theorem total_congr {m m' : KeyedLists κ α} (same : m'.get = m.get) : m'.total = m.total := by
  have left : ∀ k ∈ m'.keys, k ∈ (m'.keys ++ m.keys).toFinset := fun k member => by simp [member]
  have right : ∀ k ∈ m.keys, k ∈ (m'.keys ++ m.keys).toFinset := fun k member => by simp [member]
  rw [m'.total_eq_sum left, m.total_eq_sum right, same]

/-- What changes under one key changes the total. -/
theorem total_update {m m' : KeyedLists κ α} {k : κ} {l : List α} (moved : m'.get = Function.update m.get k l) :
    m'.total + (m.get k).length = m.total + l.length := by
  let s := (k :: m'.keys ++ m.keys).toFinset
  have left : ∀ j ∈ m'.keys, j ∈ s := fun j member => by simp [s, member]
  have right : ∀ j ∈ m.keys, j ∈ s := fun j member => by simp [s, member]
  have here : k ∈ s := by simp [s]
  have others : ∑ j ∈ s.erase k, (m'.get j).length = ∑ j ∈ s.erase k, (m.get j).length := by
    refine Finset.sum_congr rfl (fun j member => ?_)
    rw [moved, Function.update_of_ne (Finset.ne_of_mem_erase member)]
  have changed : (m'.get k).length = l.length := by rw [moved, Function.update_self]
  have before := Finset.add_sum_erase s (fun j => (m.get j).length) here
  have after := Finset.add_sum_erase s (fun j => (m'.get j).length) here
  rw [m'.total_eq_sum left, m.total_eq_sum right]
  omega

theorem total_set (m : KeyedLists κ α) (k : κ) (l : List α) :
    (m.set k l).total + (m.get k).length = m.total + l.length :=
  total_update rfl

theorem get_eq_nil_of_total {m : KeyedLists κ α} (none : m.total = 0) (k : κ) : m.get k = [] := by
  have moved := m.total_set k []
  rw [none, List.length_nil] at moved
  exact List.eq_nil_of_length_eq_zero (by omega)

end KeyedLists
