import PacketComms.SimpleQueue.Lock
import PacketComms.Lib.Fifo

namespace PacketComms

/-- Blocked in the condition variable without having been notified. -/
def ConsumePc.blocked : ConsumePc → Bool
  | .waiting false => true
  | _ => false

/-- What a consumer that is about to call `front` or `pop` relies on. -/
def ConsumePc.Ready (items : List SharedPacket) : ConsumePc → Prop
  | .front => items ≠ []
  | .pop item => items.head? = some item
  | _ => True

/-- If the consumer is blocked, there is nothing to take or its notification is the next thing a producer does. -/
def ConsumePc.Heard (items : List SharedPacket) (producers : Nat → EmplacePc) (pc : ConsumePc) : Prop :=
  pc.blocked = true → items = [] ∨ ∃ j, producers j = .notifying

namespace SimpleQueue

theorem reach_guarded {q : SimpleQueue} (reach : system.Reach q) : ∀ i, (q.consumers i).Guarded :=
  reach.invariant (fun _ => rfl) (fun _ guarded _ run => (step_effect run).guarded guarded)

theorem reach_lockInv {q : SimpleQueue} (reach : system.Reach q) : LockInv q := by
  refine reach.invariant ?_ (fun before inv _ run => (step_effect run).lock (reach_guarded before) inv)
  intro t
  cases t <;> simp [system, Holds, EmplacePc.holds, Consumer.holds]

/-- While one thread holds the lock, no other consumer is about to call `front` or `pop`. -/
theorem LockInv.others_ready {q : SimpleQueue} (inv : LockInv q) {t : QueueThread}
    (own : Holds q.producers q.consumers t)
    {j : Nat} (other : .consumer j ≠ t) (items : List SharedPacket) : (q.consumers j).pc.Ready items := by
  have free : ¬ Holds q.producers q.consumers (.consumer j) := fun holds => other (inv.exclusive holds own)
  rw [Holds, Consumer.holds] at free
  cases at_pc : (q.consumers j).pc with
  | front | pop => simp [at_pc] at free
  | _ => trivial

theorem Effect.ready {q q' : SimpleQueue} {action : QueueAction} (effect : Effect q action q') (inv : LockInv q)
    (ready : ∀ j, (q.consumers j).pc.Ready q.items) : ∀ j, (q'.consumers j).pc.Ready q'.items := by
  cases effect with
  | called | produceLocked | produceUnlocked => exact ready
  | @emplaced i item at_pc =>
    have own : Holds q.producers q.consumers (.producer i) := by simp [Holds, at_pc, EmplacePc.holds]
    exact fun j => inv.others_ready own (by simp) _
  | notified =>
    intro j
    have before := ready j
    simp only [setProducer, notifyAll]
    generalize (q.consumers j).pc = pc at before
    cases pc <;> exact before
  | @popped i item first items at_pc =>
    have own : Holds q.producers q.consumers (.consumer i) := by simp [Holds, at_pc, Consumer.holds]
    intro j
    by_cases here : j = i
    · subst here
      simp [goto, setConsumer, ConsumePc.Ready]
    · simpa [goto, setConsumer, here] using inv.others_ready own (fun same => here (by injection same)) items
  | passed at_pc nonempty => exact forall_setConsumer (P := fun c => c.pc.Ready q.items) ready nonempty
  | @fronted i item items at_pc queue =>
    exact forall_setConsumer (P := fun c => c.pc.Ready q.items) ready (by simp [ConsumePc.Ready, queue])
  | @moved i => exact forall_setConsumer (P := fun c => c.pc.Ready q.items) ready (ready i)
  | _ => exact forall_setConsumer (P := fun c => c.pc.Ready q.items) ready trivial

theorem reach_ready {q : SimpleQueue} (reach : system.Reach q) : ∀ i, (q.consumers i).pc.Ready q.items :=
  reach.invariant (fun _ => trivial) (fun before ready _ run => (step_effect run).ready (reach_lockInv before) ready)

/-- Another step of a producer leaves the one that is about to notify where it is. -/
theorem notifying_update {producers : Nat → EmplacePc} {i : Nat} {pc : EmplacePc} (other : producers i ≠ .notifying)
    (notifying : ∃ j, producers j = .notifying) : ∃ j, Function.update producers i pc j = .notifying := by
  obtain ⟨j, at_pc⟩ := notifying
  have apart : j ≠ i := fun same => other (same ▸ at_pc)
  exact ⟨j, by rw [Function.update_of_ne apart, at_pc]⟩

theorem Effect.heard {q q' : SimpleQueue} {action : QueueAction} (effect : Effect q action q')
    (heard : ∀ j, (q.consumers j).pc.Heard q.items q.producers) :
    ∀ j, (q'.consumers j).pc.Heard q'.items q'.producers := by
  cases effect with
  | called at_pc | produceLocked at_pc | produceUnlocked at_pc =>
    intro j blocked
    exact (heard j blocked).imp_right (notifying_update (by rw [at_pc]; simp))
  | @emplaced i =>
    intro j blocked
    exact Or.inr ⟨i, by simp [setProducer]⟩
  | notified =>
    intro j blocked
    simp only [setProducer, notifyAll] at blocked
    generalize (q.consumers j).pc = pc at blocked
    cases pc <;> cases blocked
  | waits at_pc empty => exact fun j _ => Or.inl empty
  | @popped i item first items at_pc queue =>
    intro j blocked
    have next := forall_setConsumer (i := i) (c := { q.consumers i with pc := .releasing })
      (P := fun c => c.pc.Heard q.items q.producers) heard (by simp [ConsumePc.Heard, ConsumePc.blocked])
    exact Or.inr ((next j blocked).resolve_left (by simp [queue]))
  | @moved i => exact forall_setConsumer (P := fun c => c.pc.Heard q.items q.producers) heard (heard i)
  | _ =>
    exact forall_setConsumer (P := fun c => c.pc.Heard q.items q.producers) heard
      (by simp [ConsumePc.Heard, ConsumePc.blocked])

theorem reach_heard {q : SimpleQueue} (reach : system.Reach q) : ∀ i, (q.consumers i).pc.Heard q.items q.producers :=
  reach.invariant (fun i blocked => by cases blocked) (fun _ heard _ run => (step_effect run).heard heard)

/-- The queue as a first-in first-out queue with its history. -/
def Refines (q : SimpleQueue) (f : Unit → Fifo SharedPacket) : Prop :=
  (f ()).posted = q.emplaced ∧ (f ()).taken = q.consumed.map Prod.snd ∧ (f ()).queue = q.items

theorem refines_fifo :
    TransitionSystem.Simulation system (Fifo.family Unit SharedPacket) (fun _ _ => True) (fun _ _ => True) Refines where
  start := ⟨rfl, rfl, rfl⟩
  step := by
    intro q action q' f reach related _ run
    obtain ⟨posted, taken, queue⟩ := related
    cases step_effect run with
    | @emplaced i item =>
      refine Or.inr ⟨.post () item, _, trivial, rfl, ?_⟩
      simp [Refines, setProducer, posted, taken, queue]
    | @popped i item first items at_pc nonempty =>
      have shown := reach_ready reach i
      rw [at_pc] at shown
      simp only [ConsumePc.Ready, nonempty, List.head?_cons, Option.some.injEq] at shown
      obtain ⟨r, took, rest⟩ := Fifo.take_of_cons (queue.trans nonempty)
      obtain ⟨-, posted', taken'⟩ := Fifo.take_eq_some took
      refine Or.inr ⟨.take (), Function.update f () r, trivial, ?_, ?_⟩
      · simp only [Fifo.family, took]
        rfl
      · simp [Refines, goto, setConsumer, posted', taken', rest, posted, taken, shown]
    | _ => exact Or.inl ⟨posted, taken, queue⟩

/-- Over all runs of any number of producers and consumers: `front` and `pop` find a packet, the one that is popped is
the one that was read, what was popped and what is queued is what was emplaced, in this order, so that distinct
packets go to one consumer each; and no consumer sleeps over a packet, except that the producer which holds the lock
may be about to wake it. -/
theorem hand_off (q : SimpleQueue) (reach : system.Reach q) :
    (∀ i, (q.consumers i).pc = .front → q.items ≠ []) ∧
    (∀ i item, (q.consumers i).pc = .pop item → q.items.head? = some item) ∧
    q.consumed.map Prod.snd ++ q.items = q.emplaced ∧
    (q.emplaced.Nodup → ∀ i j item, (i, item) ∈ q.consumed → (j, item) ∈ q.consumed → i = j) ∧
    ∀ i, (q.consumers i).pc.blocked = true →
      q.items = [] ∨ ∃ j, q.producers j = .notifying ∧ q.lock = .held (.producer j) := by
  have balance : q.consumed.map Prod.snd ++ q.items = q.emplaced := by
    obtain ⟨f, -, posted, taken, queue⟩ := refines_fifo.reach reach
    rw [← posted, ← taken, ← queue, (f ()).balance]
  refine ⟨fun i at_pc => ?_, fun i item at_pc => ?_, balance, fun distinct i j item first second => ?_,
    fun i blocked => ?_⟩
  · have ready := reach_ready reach i
    rwa [at_pc] at ready
  · have ready := reach_ready reach i
    rwa [at_pc] at ready
  · rw [← balance, List.nodup_append] at distinct
    have same := List.inj_on_of_nodup_map distinct.1 first second rfl
    exact congrArg Prod.fst same
  · refine (reach_heard reach i blocked).imp_right (fun ⟨j, at_pc⟩ => ⟨j, at_pc, ?_⟩)
    exact (reach_lockInv reach (.producer j)).mp (by simp [Holds, at_pc, EmplacePc.holds])

/-- A consumer that waits, and a producer that has put a packet and has still to call `notify_all`. -/
def waitThenEmplace : List QueueAction :=
  [.lock 0, .consume 0, .consume 0, .consume 0, .emplace 0 ⟨0, ⟨2, [7]⟩⟩, .produce 0, .produce 0]

theorem hand_off_fails : ¬ ∀ q, system.Reach q →
    (∀ i, (q.consumers i).pc = .front → q.items ≠ []) ∧
    (∀ i item, (q.consumers i).pc = .pop item → q.items.head? = some item) ∧
    q.consumed.map Prod.snd ++ q.items = q.emplaced ∧
    (q.emplaced.Nodup → ∀ i j item, (i, item) ∈ q.consumed → (j, item) ∈ q.consumed → i = j) ∧
    ∀ i, (q.consumers i).pc.blocked = true → q.items = [] := by
  intro all
  have initial : system.Reach {} := .start
  obtain ⟨q, reach, seen⟩ := initial.computed
    (fun q : SimpleQueue => ((q.consumers 0).pc.blocked, q.items)) waitThenEmplace (fun _ _ _ => trivial)
    (r := (true, [⟨0, ⟨2, [7]⟩⟩])) (by decide)
  obtain ⟨blocked, items⟩ := Prod.mk.inj seen
  obtain ⟨-, -, -, -, asleep⟩ := all q reach
  rw [asleep 0 blocked] at items
  cases items

/-- Two consumers wait for one packet: both are woken, one takes the packet, through a `LockedQueue` that it has moved,
and the other goes back to sleep. -/
def oneForTwo : List QueueAction :=
  [.lock 0, .consume 0, .consume 0, .consume 0, .lock 1, .consume 1, .consume 1, .consume 1,
    .emplace 0 ⟨0, ⟨2, [7]⟩⟩, .produce 0, .produce 0, .produce 0, .produce 0, .wake 0, .wake 1,
    .consume 0, .consume 0, .move 0, .consume 0, .consume 0, .consume 0, .consume 0, .consume 0, .consume 1, .consume 1]

theorem hand_off_one_for_two : ∃ q, system.Reach q ∧ q.consumed = [(0, ⟨0, ⟨2, [7]⟩⟩)] ∧
    (q.consumers 1).pc.blocked = true ∧
    (∀ i, (q.consumers i).pc = .front → q.items ≠ []) ∧
    (∀ i item, (q.consumers i).pc = .pop item → q.items.head? = some item) ∧
    q.consumed.map Prod.snd ++ q.items = q.emplaced ∧
    (q.emplaced.Nodup → ∀ i j item, (i, item) ∈ q.consumed → (j, item) ∈ q.consumed → i = j) ∧
    ∀ i, (q.consumers i).pc.blocked = true →
      q.items = [] ∨ ∃ j, q.producers j = .notifying ∧ q.lock = .held (.producer j) := by
  have initial : system.Reach {} := .start
  obtain ⟨q, reach, seen⟩ := initial.computed
    (fun q : SimpleQueue => (q.consumed, (q.consumers 1).pc.blocked)) oneForTwo (fun _ _ _ => trivial)
    (r := ([(0, ⟨0, ⟨2, [7]⟩⟩)], true)) (by decide)
  obtain ⟨consumed, blocked⟩ := Prod.mk.inj seen
  exact ⟨q, reach, consumed, blocked, hand_off q reach⟩

end SimpleQueue

end PacketComms
