import PacketComms.SimpleQueue.Machine

namespace PacketComms

/-- Within the scope of the guard of `emplace`. -/
def EmplacePc.holds : EmplacePc → Bool
  | .idle | .locking _ => false
  | .emplacing _ | .notifying | .unlocking => true

/-- The consumer holds `m_lock`. The condition variable gives it back during the wait, the destructor of the
`LockedQueue` that owns it at the end. -/
def Consumer.holds (c : Consumer) : Bool :=
  match c.pc with
  | .idle | .locking | .waiting _ | .relock => false
  | .locked | .test | .front | .pop _ => true
  | .releasing => c.scope.any (·.owns)

/-- Of the objects in the scope one owns the lock, or none once it is released. -/
def Consumer.Guarded (c : Consumer) : Prop :=
  match c.pc with
  | .idle | .locking => c.scope.countP (·.owns) = 0
  | .releasing => c.scope.countP (·.owns) ≤ 1
  | _ => c.scope.countP (·.owns) = 1

namespace SimpleQueue

/-- The threads that, by where they are, hold `m_lock`. -/
def Holds (producers : Nat → EmplacePc) (consumers : Nat → Consumer) : QueueThread → Prop
  | .producer i => (producers i).holds = true
  | .consumer i => (consumers i).holds = true

/-- The lock says what the program counters say. -/
def LockInv (q : SimpleQueue) : Prop := q.lock.Agrees (Holds q.producers q.consumers)

/-- What a step does, case by case. -/
inductive Effect (q : SimpleQueue) : QueueAction → SimpleQueue → Prop
  | called {i item} : q.producers i = .idle → Effect q (.emplace i item) (q.setProducer i (.locking item))
  | produceLocked {i item} : q.producers i = .locking item → q.lock = .free →
      Effect q (.produce i) { q.setProducer i (.emplacing item) with lock := .held (.producer i) }
  | emplaced {i item} : q.producers i = .emplacing item →
      Effect q (.produce i)
        { q.setProducer i .notifying with items := q.items ++ [item], emplaced := q.emplaced ++ [item] }
  | notified {i} : q.producers i = .notifying → Effect q (.produce i) (q.notifyAll.setProducer i .unlocking)
  | produceUnlocked {i} : q.producers i = .unlocking → q.lock = .held (.producer i) →
      Effect q (.produce i) { q.setProducer i .idle with lock := .free }
  | requested {i} : (q.consumers i).pc = .idle → Effect q (.lock i) (q.goto i .locking)
  | consumeLocked {i} : (q.consumers i).pc = .locking → q.lock = .free →
      Effect q (.consume i) { q.setConsumer i ⟨.locked, [⟨true⟩]⟩ with lock := .held (.consumer i) }
  | tests {i} : (q.consumers i).pc = .locked → Effect q (.consume i) (q.goto i .test)
  | waits {i} : (q.consumers i).pc = .test → q.items = [] → q.lock = .held (.consumer i) →
      Effect q (.consume i) { q.goto i (.waiting false) with lock := .free }
  | passed {i} : (q.consumers i).pc = .test → q.items ≠ [] → Effect q (.consume i) (q.goto i .front)
  | relocked {i} : (q.consumers i).pc = .relock → q.lock = .free →
      Effect q (.consume i) { q.goto i .test with lock := .held (.consumer i) }
  | fronted {i item items} : (q.consumers i).pc = .front → q.items = item :: items →
      Effect q (.consume i) (q.goto i (.pop item))
  | popped {i item first items} : (q.consumers i).pc = .pop item → q.items = first :: items →
      Effect q (.consume i) { q.goto i .releasing with items := items, consumed := q.consumed ++ [(i, item)] }
  | returned {i} : (q.consumers i).pc = .releasing → (q.consumers i).scope = [] → Effect q (.consume i) (q.goto i .idle)
  | destroyed {i scope} : (q.consumers i).pc = .releasing → (q.consumers i).scope = ⟨false⟩ :: scope →
      Effect q (.consume i) (q.setConsumer i ⟨.releasing, scope⟩)
  | released {i scope} : (q.consumers i).pc = .releasing → (q.consumers i).scope = ⟨true⟩ :: scope →
      q.lock = .held (.consumer i) → Effect q (.consume i) { q.setConsumer i ⟨.releasing, scope⟩ with lock := .free }
  | moved {i guard scope} : (q.consumers i).pc.movable = true → (q.consumers i).scope = guard :: scope →
      Effect q (.move i) (q.setConsumer i ⟨(q.consumers i).pc, guard.moved.1 :: guard.moved.2 :: scope⟩)
  | woke {i n} : (q.consumers i).pc = .waiting n → Effect q (.wake i) (q.goto i .relock)

theorem step_effect {q q' : SimpleQueue} {action : QueueAction} (run : q.step action = some q') :
    Effect q action q' := by
  cases action with
  | emplace i item =>
    simp only [step] at run
    split at run
    · rename_i at_pc
      cases Option.some.inj run
      exact .called at_pc
    · cases run
  | produce i =>
    simp only [step, produceStep] at run
    split at run
    · cases run
    · rename_i at_pc
      obtain ⟨free, rfl⟩ := Mutex.acquire_map_eq_some run
      exact .produceLocked at_pc free
    · rename_i at_pc
      cases Option.some.inj run
      exact .emplaced at_pc
    · rename_i at_pc
      cases Option.some.inj run
      exact .notified at_pc
    · rename_i at_pc
      obtain ⟨held, rfl⟩ := Mutex.release_map_eq_some run
      exact .produceUnlocked at_pc held
  | lock i =>
    simp only [step] at run
    split at run
    · rename_i at_pc
      cases Option.some.inj run
      exact .requested at_pc
    · cases run
  | consume i =>
    simp only [step, consumeStep] at run
    split at run
    · cases run
    · cases run
    · rename_i at_pc
      obtain ⟨free, rfl⟩ := Mutex.acquire_map_eq_some run
      exact .consumeLocked at_pc free
    · rename_i at_pc
      cases Option.some.inj run
      exact .tests at_pc
    · rename_i at_pc
      split at run
      · rename_i empty
        obtain ⟨held, rfl⟩ := Mutex.release_map_eq_some run
        exact .waits at_pc empty held
      · rename_i nonempty
        cases Option.some.inj run
        exact .passed at_pc nonempty
    · rename_i at_pc
      obtain ⟨free, rfl⟩ := Mutex.acquire_map_eq_some run
      exact .relocked at_pc free
    · rename_i at_pc
      split at run
      · cases run
      · rename_i items
        cases Option.some.inj run
        exact .fronted at_pc items
    · rename_i at_pc
      split at run
      · cases run
      · rename_i items
        cases Option.some.inj run
        exact .popped at_pc items
    · rename_i at_pc
      split at run
      · rename_i scope
        cases Option.some.inj run
        exact .returned at_pc scope
      · rename_i scope
        cases Option.some.inj run
        exact .destroyed at_pc scope
      · rename_i scope
        obtain ⟨held, rfl⟩ := Mutex.release_map_eq_some run
        exact .released at_pc scope held
  | move i =>
    simp only [step] at run
    split at run
    · cases run
    · rename_i scope
      split at run
      · rename_i movable
        cases Option.some.inj run
        exact .moved movable scope
      · cases run
  | wake i =>
    simp only [step] at run
    split at run
    · rename_i at_pc
      cases Option.some.inj run
      exact .woke at_pc
    · cases run

section Threads

variable {producers : Nat → EmplacePc} {consumers : Nat → Consumer} {i : Nat} {pc : EmplacePc} {c : Consumer}

theorem holds_producer (u : QueueThread) (other : u ≠ .producer i) :
    Holds (Function.update producers i pc) consumers u ↔ Holds producers consumers u := by
  cases u with
  | consumer j => exact Iff.rfl
  | producer j =>
    have apart : j ≠ i := fun same => other (by rw [same])
    rw [Holds, Holds, Function.update_of_ne apart]

theorem holds_consumer (u : QueueThread) (other : u ≠ .consumer i) :
    Holds producers (Function.update consumers i c) u ↔ Holds producers consumers u := by
  cases u with
  | producer j => exact Iff.rfl
  | consumer j =>
    have apart : j ≠ i := fun same => other (by rw [same])
    rw [Holds, Holds, Function.update_of_ne apart]

/-- A step after which the producer holds the lock as before. -/
theorem holds_producer_same (same : pc.holds = (producers i).holds) (u : QueueThread) :
    Holds (Function.update producers i pc) consumers u ↔ Holds producers consumers u := by
  by_cases here : u = .producer i
  · subst here
    rw [Holds, Holds, Function.update_self, same]
  · exact holds_producer u here

theorem holds_consumer_same (same : c.holds = (consumers i).holds) (u : QueueThread) :
    Holds producers (Function.update consumers i c) u ↔ Holds producers consumers u := by
  by_cases here : u = .consumer i
  · subst here
    rw [Holds, Holds, Function.update_self, same]
  · exact holds_consumer u here

theorem holds_notifyAll (q : SimpleQueue) (u : QueueThread) :
    Holds q.producers q.notifyAll.consumers u ↔ Holds q.producers q.consumers u := by
  cases u with
  | producer j => exact Iff.rfl
  | consumer j =>
    have same :
        ({ q.consumers j with pc := (q.consumers j).pc.notified } : Consumer).holds = (q.consumers j).holds := by
      unfold Consumer.holds
      cases (q.consumers j).pc <;> rfl
    simp only [Holds, notifyAll, same]

/-- What holds of all consumers and of the new one. -/
theorem forall_setConsumer {q : SimpleQueue} {P : Consumer → Prop} (all : ∀ j, P (q.consumers j)) (here : P c)
    (j : Nat) : P ((q.setConsumer i c).consumers j) := by
  by_cases same : j = i
  · subst same
    simpa [setConsumer] using here
  · simpa [setConsumer, same] using all j

end Threads

theorem Effect.guarded {q q' : SimpleQueue} {action : QueueAction} (effect : Effect q action q')
    (guarded : ∀ j, (q.consumers j).Guarded) : ∀ j, (q'.consumers j).Guarded := by
  cases effect with
  | called | produceLocked | emplaced | produceUnlocked => exact guarded
  | notified =>
    intro j
    have before := guarded j
    simp only [setProducer, notifyAll]
    unfold Consumer.Guarded at before ⊢
    generalize (q.consumers j).pc = pc at before
    cases pc <;> exact before
  | consumeLocked => exact forall_setConsumer guarded (by simp [Consumer.Guarded])
  | @destroyed i scope at_pc objects | @released i scope at_pc objects =>
    have before := guarded i
    refine forall_setConsumer guarded ?_
    simp only [Consumer.Guarded, at_pc, objects, List.countP_cons] at before ⊢
    omega
  | @moved i guard scope movable objects =>
    have before := guarded i
    refine forall_setConsumer guarded ?_
    unfold Consumer.Guarded at before ⊢
    rw [objects] at before
    simp only [LockedQueue.moved]
    generalize (q.consumers i).pc = pc at before movable
    cases pc <;> simp_all [ConsumePc.movable, List.countP_cons]
  | @returned i at_pc objects => exact forall_setConsumer guarded (by simp [Consumer.Guarded, objects])
  | @requested i at_pc | @tests i at_pc | @waits i at_pc | @passed i at_pc | @relocked i at_pc | @fronted i _ _ at_pc
  | @popped i _ _ _ at_pc | @woke i _ at_pc =>
    have before := guarded i
    refine forall_setConsumer guarded ?_
    simp only [Consumer.Guarded, at_pc] at before ⊢
    omega

theorem Effect.lock {q q' : SimpleQueue} {action : QueueAction} (effect : Effect q action q')
    (guarded : ∀ j, (q.consumers j).Guarded) (inv : LockInv q) : LockInv q' := by
  cases effect with
  | called at_pc | emplaced at_pc => exact inv.kept (holds_producer_same (by rw [at_pc]; rfl))
  | notified at_pc =>
    have heard : q.lock.Agrees (Holds q.producers q.notifyAll.consumers) := inv.kept (holds_notifyAll q)
    exact heard.kept (holds_producer_same (by rw [notifyAll, at_pc]; rfl))
  | produceLocked at_pc free =>
    rw [LockInv, free] at inv
    exact inv.acquired (by simp [Holds, setProducer, EmplacePc.holds]) holds_producer
  | produceUnlocked at_pc held =>
    rw [LockInv, held] at inv
    exact inv.released (by simp [Holds, setProducer, EmplacePc.holds]) holds_producer
  | consumeLocked at_pc free | relocked at_pc free =>
    rw [LockInv, free] at inv
    exact inv.acquired (by simp [Holds, goto, setConsumer, Consumer.holds]) holds_consumer
  | waits at_pc empty held =>
    rw [LockInv, held] at inv
    exact inv.released (by simp [Holds, goto, setConsumer, Consumer.holds]) holds_consumer
  | @released i scope at_pc objects held =>
    have only := guarded i
    simp only [Consumer.Guarded, at_pc, objects, List.countP_cons] at only
    rw [LockInv, held] at inv
    refine inv.released ?_ holds_consumer
    have none : scope.countP (·.owns) = 0 := by simpa using only
    simpa [Holds, setConsumer, Consumer.holds, List.countP_eq_zero] using none
  | @popped i _ _ _ at_pc =>
    have one := guarded i
    simp only [Consumer.Guarded, at_pc] at one
    have some : 0 < (q.consumers i).scope.countP (·.owns) := by rw [one]; exact Nat.one_pos
    have owned : (q.consumers i).scope.any (·.owns) = true := List.any_eq_true.mpr (List.countP_pos_iff.mp some)
    exact inv.kept (holds_consumer_same (by simp only [Consumer.holds, at_pc, owned]))
  | @moved i guard scope movable objects =>
    refine inv.kept (holds_consumer_same ?_)
    unfold Consumer.holds
    generalize (q.consumers i).pc = pc at movable
    cases pc <;> simp_all [ConsumePc.movable]
  | requested at_pc | tests at_pc | passed at_pc | fronted at_pc | woke at_pc =>
    exact inv.kept (holds_consumer_same (by simp only [Consumer.holds, at_pc]))
  | returned at_pc objects | destroyed at_pc objects =>
    exact inv.kept (holds_consumer_same (by simp [Consumer.holds, at_pc, objects]))

end SimpleQueue

end PacketComms
