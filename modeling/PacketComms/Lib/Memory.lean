import Mathlib.Data.List.Basic

universe u

/-- A memory that has a value at every address. -/
abbrev Memory (β : Type u) := Nat → β

namespace Memory

variable {β : Type u}

/-- The memory after the values have been stored one behind the other, the first at `base`. -/
def store (m : Memory β) (base : Nat) (values : List β) : Memory β :=
  fun address => if address < base then m address else (values[address - base]?).getD (m address)

/-- The `n` values that lie at `base` and behind it. -/
def load (m : Memory β) (base n : Nat) : List β :=
  (List.range n).map (fun i => m (base + i))

variable (m : Memory β) (base : Nat)

theorem store_below (values : List β) {address : Nat} (below : address < base) :
    m.store base values address = m address := if_pos below

theorem store_beyond (values : List β) {address : Nat} (beyond : base + values.length ≤ address) :
    m.store base values address = m address := by
  have outside : values[address - base]? = none := List.getElem?_eq_none (by omega)
  simp [store, outside]

@[simp] theorem store_nil : m.store base [] = m := by
  funext address
  simp [store]

/-- Consecutive stores are one store of all the values. -/
theorem store_append (first second : List β) :
    m.store base (first ++ second) = (m.store base first).store (base + first.length) second := by
  funext address
  by_cases below : address < base + first.length
  · rw [store_below _ _ _ below]
    by_cases before : address < base
    · rw [store_below _ _ _ before, store_below _ _ _ before]
    · have inside : address - base < first.length := by omega
      simp only [store, before, if_false, List.getElem?_append_left inside]
  · have offset : address - (base + first.length) = address - base - first.length := by omega
    have before : ¬ address < base := by omega
    have outside : first.length ≤ address - base := by omega
    rw [store, if_neg before, List.getElem?_append_right outside, store, if_neg below, offset,
      store_beyond m base first (by omega)]

@[simp] theorem length_load (n : Nat) : (m.load base n).length = n := by simp [load]

/-- What has been stored is what is found there. -/
theorem load_store (values : List β) : (m.store base values).load base values.length = values := by
  refine List.ext_getElem (by simp) (fun i _ inside => ?_)
  have found : m.store base values (base + i) = values[i] := by
    rw [store, if_neg (by omega), Nat.add_sub_cancel_left, List.getElem?_eq_getElem inside, Option.getD_some]
  simp [load, found]

end Memory
