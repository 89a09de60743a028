import Mathlib.Data.List.Infix

universe u

/-! Histories grow at the end: what stands at a place of the longer one is the new
event or stood there before. -/

theorem List.concat_prefix_concat {α : Type u} {before log : List α} {x event : α}
    (place : before ++ [x] <+: log ++ [event]) : (before = log ∧ x = event) ∨ before ++ [x] <+: log := by
  rcases List.prefix_concat_iff.mp place with whole | earlier
  · obtain ⟨same, last⟩ := List.append_inj' whole rfl
    exact Or.inl ⟨same, List.singleton_inj.mp last⟩
  · exact Or.inr earlier

/-- What is not the new event stood there before. -/
theorem List.prefix_of_concat_ne {α : Type u} {before log : List α} {x event : α}
    (place : before ++ [x] <+: log ++ [event]) (other : x ≠ event) : before ++ [x] <+: log := by
  rcases List.concat_prefix_concat place with ⟨-, new⟩ | old
  · exact absurd new other
  · exact old

/-- A part of a history without repetitions that holds an event reaches up to it. -/
theorem List.concat_prefix_of_mem {α : Type u} {before part log : List α} {event : α} (distinct : log.Nodup)
    (place : before ++ [event] <+: log) (begins : part <+: log) (member : event ∈ part) :
    before ++ [event] <+: part := by
  rcases List.prefix_or_prefix_of_prefix place begins with within | within
  · exact within
  · rcases List.prefix_concat_iff.mp within with whole | earlier
    · exact whole ▸ List.prefix_rfl
    · have once := place.sublist.nodup distinct
      rw [List.nodup_append] at once
      exact absurd rfl (once.2.2 event (earlier.subset member) event List.mem_cons_self)
