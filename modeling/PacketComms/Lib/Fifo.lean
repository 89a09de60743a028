import PacketComms.Lib.TransitionSystem
import Mathlib.Data.List.Infix
import Mathlib.Logic.Function.Basic

universe u v

/-- A queue with its history: what was ever posted to it and what was taken from
it. The balance says that nothing is lost, doubled or overtaken. -/
structure Fifo (α : Type u) where
  posted : List α
  taken : List α
  queue : List α
  balance : taken ++ queue = posted

namespace Fifo

variable {α : Type u}

@[ext] theorem ext {q r : Fifo α} (posted : q.posted = r.posted) (taken : q.taken = r.taken)
    (queue : q.queue = r.queue) : q = r := by
  cases q
  cases r
  simp_all

def empty : Fifo α := ⟨[], [], [], rfl⟩

def post (q : Fifo α) (a : α) : Fifo α :=
  ⟨q.posted ++ [a], q.taken, q.queue ++ [a], by rw [← List.append_assoc, q.balance]⟩

/-- Takes the oldest element. -/
def take (q : Fifo α) : Option (α × Fifo α) :=
  match h : q.queue with
  | [] => none
  | a :: rest => some (a, ⟨q.posted, q.taken ++ [a], rest, by
      rw [List.append_assoc, List.singleton_append, ← h, q.balance]⟩)

theorem mem_posted_of_mem_queue {q : Fifo α} {a : α} (member : a ∈ q.queue) : a ∈ q.posted := by
  rw [← q.balance]
  exact List.mem_append_right _ member

/-- The queue is what the history leaves. -/
theorem queue_eq_drop (q : Fifo α) : q.queue = q.posted.drop q.taken.length := by
  rw [← q.balance, List.drop_left]

theorem length_balance (q : Fifo α) : q.taken.length + q.queue.length = q.posted.length := by
  rw [← List.length_append, q.balance]

@[simp] theorem posted_post (q : Fifo α) (a : α) : (q.post a).posted = q.posted ++ [a] := rfl
@[simp] theorem taken_post (q : Fifo α) (a : α) : (q.post a).taken = q.taken := rfl
@[simp] theorem queue_post (q : Fifo α) (a : α) : (q.post a).queue = q.queue ++ [a] := rfl

/-- Everything that taking the oldest element does. -/
theorem take_eq_some {q r : Fifo α} {a : α} (run : q.take = some (a, r)) :
    q.queue = a :: r.queue ∧ r.posted = q.posted ∧ r.taken = q.taken ++ [a] := by
  unfold take at run
  split at run
  · simp at run
  · rename_i b rest split
    cases Option.some.inj run
    exact ⟨split, rfl, rfl⟩

theorem take_of_cons {q : Fifo α} {a : α} {rest : List α} (nonempty : q.queue = a :: rest) :
    ∃ r, q.take = some (a, r) ∧ r.queue = rest := by
  unfold take
  split
  · simp_all
  · rename_i b tail split
    rw [nonempty] at split
    cases split
    exact ⟨_, rfl, rfl⟩

/-- What is known to come next can be taken. -/
theorem take_next {q : Fifo α} {a : α} (next : q.taken ++ [a] <+: q.posted) :
    ∃ r, q.take = some (a, r) ∧ r.posted = q.posted ∧ r.taken = q.taken ++ [a] := by
  obtain ⟨rest, split⟩ := next
  have front : q.queue = a :: rest := by
    rw [queue_eq_drop, ← split, List.append_assoc, List.drop_left]
    rfl
  obtain ⟨r, took, -⟩ := take_of_cons front
  obtain ⟨-, posted, taken⟩ := take_eq_some took
  exact ⟨r, took, posted, taken⟩

/-- What can happen to a family of queues. -/
inductive Action (κ : Type v) (α : Type u)
  | post (k : κ) (a : α)
  | take (k : κ)

/-- A queue for each key, all empty at the start. Nothing else is promised: the keys do
not see each other. -/
def family (κ : Type v) (α : Type u) [DecidableEq κ] : TransitionSystem (κ → Fifo α) (Action κ α) where
  start _ := empty
  step f
    | .post k a => some (Function.update f k ((f k).post a))
    | .take k => (f k).take.map (fun (_, q) => Function.update f k q)

end Fifo
