import PacketComms.Lib.Liveness
import PacketComms.SimpleQueue.HandOff

namespace PacketComms

/-- How far a producer with the lock is from the end of `emplace`. -/
def EmplacePc.rank : EmplacePc → Nat
  | .idle | .locking _ => 0
  | .emplacing _ => 3
  | .notifying => 2
  | .unlocking => 1

/-- How far a consumer with the lock is from the end of its scope, while no guard is destroyed. -/
def ConsumePc.rank : ConsumePc → Nat
  | .locked => 4
  | .test => 3
  | .front => 2
  | .pop _ => 1
  | _ => 0

namespace SimpleQueue

open TransitionSystem (Execution)

/-- A producer goes on in `emplace`. -/
def OnProducer (i : Nat) (_ : SimpleQueue) (a : QueueAction) : Prop := a = .produce i

/-- A consumer goes on. It need not come back from the condition variable before it is notified. -/
def OnConsumer (i : Nat) (q : SimpleQueue) (a : QueueAction) : Prop :=
  a = .consume i ∨ a = .wake i ∧ (q.consumers i).pc = .waiting true

section Steps

variable {q q' : SimpleQueue} {a : QueueAction} {i : Nat}

/-- Only its own steps move a producer that is in `emplace`. -/
theorem Effect.producer (effect : Effect q a q') (i : Nat) :
    a = .produce i ∨ q.producers i = .idle ∨ q'.producers i = q.producers i := by
  cases effect with
  | @called j item at_pc =>
    by_cases own : i = j
    · exact Or.inr (Or.inl (own ▸ at_pc))
    · exact Or.inr (Or.inr (Function.update_of_ne own _ _))
  | @produceLocked j | @emplaced j | @notified j | @produceUnlocked j =>
    by_cases own : i = j
    · exact Or.inl (own ▸ rfl)
    · exact Or.inr (Or.inr (Function.update_of_ne own _ _))
  | _ => exact Or.inr (Or.inr rfl)

/-- What moves a consumer besides its own steps: its call of `lock`, and the condition variable. -/
theorem Effect.consumer (effect : Effect q a q') (i : Nat) :
    a = .consume i ∨
    (q'.consumers i).pc = (q.consumers i).pc ∧
      ((q.consumers i).pc = .releasing → (q'.consumers i).scope = (q.consumers i).scope) ∨
    (q.consumers i).pc = .idle ∧ (q'.consumers i).pc = .locking ∨
    ∃ n, (q.consumers i).pc = .waiting n ∧ ((q'.consumers i).pc = .waiting true ∨ (q'.consumers i).pc = .relock) := by
  have other {j : Nat} {c : Consumer} (apart : i ≠ j) : (q.setConsumer j c).consumers i = q.consumers i :=
    Function.update_of_ne apart _ _
  cases effect with
  | called | produceLocked | emplaced | produceUnlocked => exact Or.inr (Or.inl ⟨rfl, fun _ => rfl⟩)
  | notified =>
    cases at_pc : (q.consumers i).pc with
    | waiting n =>
      refine Or.inr (Or.inr (Or.inr ⟨n, rfl, Or.inl ?_⟩))
      simp [setProducer, notifyAll, at_pc, ConsumePc.notified]
    | _ => exact Or.inr (Or.inl (by simp [setProducer, notifyAll, at_pc, ConsumePc.notified]))
  | @requested j at_pc =>
    by_cases own : i = j
    · subst own
      exact Or.inr (Or.inr (Or.inl ⟨at_pc, by simp [goto, setConsumer]⟩))
    · exact Or.inr (Or.inl (by simp [goto, other own]))
  | @moved j guard scope movable =>
    by_cases own : i = j
    · subst own
      refine Or.inr (Or.inl ⟨by simp [setConsumer], fun releasing => ?_⟩)
      simp [releasing, ConsumePc.movable] at movable
    · exact Or.inr (Or.inl (by simp [other own]))
  | @woke j n at_pc =>
    by_cases own : i = j
    · subst own
      exact Or.inr (Or.inr (Or.inr ⟨n, at_pc, Or.inr (by simp [goto, setConsumer])⟩))
    · exact Or.inr (Or.inl (by simp [goto, other own]))
  | @consumeLocked j | @tests j | @waits j | @passed j | @relocked j | @fronted j | @popped j | @returned j
  | @destroyed j | @released j =>
    by_cases own : i = j
    · exact Or.inl (own ▸ rfl)
    · exact Or.inr (Or.inl (by simp [goto, other own]))

theorem Effect.emplaces (effect : Effect q (.produce i) q') (locked : (q.producers i).holds = true) :
    q'.producers i = .idle ∨ (q'.producers i).holds = true ∧ (q'.producers i).rank < (q.producers i).rank := by
  cases effect with
  | produceLocked at_pc => simp [at_pc, EmplacePc.holds] at locked
  | emplaced at_pc | notified at_pc => exact Or.inr (by simp [setProducer, at_pc, EmplacePc.holds, EmplacePc.rank])
  | produceUnlocked => exact Or.inl (by simp [setProducer])

/-- A consumer with the lock comes to the end of its scope, or it waits on an empty queue. -/
theorem Effect.consumes (effect : Effect q (.consume i) q') (inside : 0 < (q.consumers i).pc.rank) :
    ((q'.consumers i).pc = .releasing ∨ q'.items = [] ∧ (q'.consumers i).pc = .waiting false) ∨
    0 < (q'.consumers i).pc.rank ∧ (q'.consumers i).pc.rank < (q.consumers i).pc.rank := by
  cases effect with
  | consumeLocked at_pc | relocked at_pc | returned at_pc | destroyed at_pc | released at_pc =>
    simp [at_pc, ConsumePc.rank] at inside
  | tests at_pc | passed at_pc | fronted at_pc => exact Or.inr (by simp [goto, setConsumer, at_pc, ConsumePc.rank])
  | waits at_pc empty => exact Or.inl (Or.inr ⟨empty, by simp [goto, setConsumer]⟩)
  | popped at_pc => exact Or.inl (Or.inl (by simp [goto, setConsumer]))

/-- The end of the scope destroys one guard after the other. -/
theorem Effect.releases (effect : Effect q (.consume i) q') (releasing : (q.consumers i).pc = .releasing) :
    (q'.consumers i).pc = .idle ∨
    (q'.consumers i).pc = .releasing ∧ (q'.consumers i).scope.length < (q.consumers i).scope.length := by
  cases effect with
  | returned => exact Or.inl (by simp [goto, setConsumer])
  | destroyed at_pc scope | released at_pc scope => exact Or.inr (by simp [setConsumer, scope])
  | consumeLocked at_pc | tests at_pc | waits at_pc | passed at_pc | relocked at_pc | fronted at_pc | popped at_pc =>
    simp [at_pc] at releasing

/-- Until the lock is free it stays with its holder. -/
theorem Effect.owner {t : QueueThread} (effect : Effect q a q') (held : q.lock = .held t) :
    q'.lock = .free ∨ q'.lock = .held t := by
  cases effect with
  | produceLocked at_pc free | consumeLocked at_pc free | relocked at_pc free => simp [held] at free
  | produceUnlocked | waits | released => exact Or.inl rfl
  | _ => exact Or.inr held

/-- A producer with the lock is never held up. -/
theorem emplace_enabled (reach : system.Reach q) (locked : (q.producers i).holds = true) :
    ∃ q', q.step (.produce i) = some q' := by
  have held : q.lock = .held (.producer i) := (reach_lockInv reach (.producer i)).mp locked
  simp only [step, produceStep]
  cases at_pc : q.producers i with
  | idle | locking => simp [at_pc, EmplacePc.holds] at locked
  | emplacing | notifying => exact ⟨_, rfl⟩
  | unlocking => simp [held, Mutex.release]

/-- Nor is a consumer with the lock: what it takes is there. -/
theorem consume_enabled (reach : system.Reach q) (inside : 0 < (q.consumers i).pc.rank) :
    ∃ q', q.step (.consume i) = some q' := by
  have agrees := reach_lockInv reach (.consumer i)
  have ready := reach_ready reach i
  simp only [Holds, Consumer.holds] at agrees
  simp only [step, consumeStep]
  cases at_pc : (q.consumers i).pc with
  | idle | locking | waiting | relock | releasing => simp [at_pc, ConsumePc.rank] at inside
  | locked => exact ⟨_, rfl⟩
  | test =>
    have held : q.lock = .held (.consumer i) := by simpa [at_pc] using agrees
    by_cases empty : q.items = [] <;> simp [empty, held, Mutex.release]
  | front =>
    obtain ⟨item, items, queue⟩ := List.exists_cons_of_ne_nil (by simpa [at_pc, ConsumePc.Ready] using ready)
    exact ⟨_, by rw [queue]⟩
  | pop item =>
    rw [at_pc] at ready
    obtain ⟨items, queue⟩ := List.head?_eq_some_iff.mp ready
    exact ⟨_, by rw [queue]⟩

theorem release_enabled (reach : system.Reach q) (releasing : (q.consumers i).pc = .releasing) :
    ∃ q', q.step (.consume i) = some q' := by
  have agrees := reach_lockInv reach (.consumer i)
  simp only [Holds, Consumer.holds, releasing] at agrees
  simp only [step, consumeStep, releasing]
  cases scope : (q.consumers i).scope with
  | nil => exact ⟨_, rfl⟩
  | cons guard scope =>
    obtain ⟨owns⟩ := guard
    cases owns with
    | false => exact ⟨_, rfl⟩
    | true =>
      have held : q.lock = .held (.consumer i) := by simpa [scope] using agrees
      simp [held, Mutex.release]

theorem Effect.emplace_locks {item : SharedPacket} (effect : Effect q (.produce i) q')
    (locking : q.producers i = .locking item) : (q'.producers i).holds = true := by
  cases effect with
  | produceLocked => simp [setProducer, EmplacePc.holds]
  | emplaced at_pc | notified at_pc | produceUnlocked at_pc => simp [at_pc] at locking

theorem Effect.consume_locks (effect : Effect q (.consume i) q')
    (locking : (q.consumers i).pc = .locking ∨ (q.consumers i).pc = .relock) : 0 < (q'.consumers i).pc.rank := by
  cases effect with
  | consumeLocked | relocked => simp [goto, setConsumer, ConsumePc.rank]
  | tests at_pc | waits at_pc | passed at_pc | fronted at_pc | popped at_pc | returned at_pc | destroyed at_pc
  | released at_pc => simp [at_pc] at locking

/-- Within the condition variable a consumer does nothing. -/
theorem Effect.not_waiting (effect : Effect q (.consume i) q') (n : Bool) : (q.consumers i).pc ≠ .waiting n := by
  cases effect <;> simp_all

/-- `notify_all` reaches every consumer that waits. -/
theorem Effect.notifies {j : Nat} {n : Bool} (effect : Effect q (.produce j) q')
    (notifying : q.producers j = .notifying) (waiting : (q.consumers i).pc = .waiting n) :
    (q'.consumers i).pc = .waiting true := by
  cases effect with
  | notified => simp [setProducer, notifyAll, waiting, ConsumePc.notified]
  | produceLocked at_pc | emplaced at_pc | produceUnlocked at_pc => simp [at_pc] at notifying

/-- The consumer has been at work since `c` packets were taken: it does not come to the end of its scope before one
more is. -/
def Due (c i : Nat) (q : SimpleQueue) : Prop :=
  c ≤ q.consumed.length ∧ ((q.consumers i).pc = .releasing ∨ (q.consumers i).pc = .idle → c < q.consumed.length)

theorem Effect.consumed_grows (effect : Effect q a q') : q.consumed <+: q'.consumed := by
  cases effect with
  | popped => exact List.prefix_append _ _
  | _ => exact List.prefix_rfl

theorem Effect.emplaced_grows (effect : Effect q a q') : q.emplaced <+: q'.emplaced := by
  cases effect with
  | emplaced => exact List.prefix_append _ _
  | _ => exact List.prefix_rfl

theorem Effect.due {c : Nat} (effect : Effect q a q') (due : Due c i q) : Due c i q' := by
  have grows := effect.consumed_grows.length_le
  obtain ⟨before, ended⟩ := due
  refine ⟨before.trans grows, ?_⟩
  rcases effect.consumer i with rfl | ⟨same, -⟩ | ⟨-, locking⟩ | ⟨n, -, notified | relock⟩
  · cases effect with
    | popped => exact fun _ => by simpa using Nat.lt_succ_of_le before
    | returned at_pc | destroyed at_pc | released at_pc => exact fun _ => (ended (Or.inl at_pc)).trans_le grows
    | consumeLocked | tests | waits | passed | relocked | fronted => simp [goto, setConsumer]
  · exact fun place => (ended (same ▸ place)).trans_le grows
  · simp [locking]
  · simp [notified]
  · simp [relock]

end Steps

/-- A fair scheduler: a thread that can go on again and again goes on, also where this takes the lock. -/
structure FairThreads {C : SimpleQueue → QueueAction → Prop} (e : system.Execution C) : Prop where
  producers : ∀ i, e.Fair (OnProducer i)
  consumers : ∀ i, e.Fair (OnConsumer i)

section Progress

variable {e : system.Execution fun _ _ => True} {i : Nat}

theorem emplace_ends (fair : FairThreads e) :
    e.LeadsTo (fun q => (q.producers i).holds = true) (fun q => q.producers i = .idle) := by
  refine .descend_own (fair.producers i) (fun q => (q.producers i).rank) ?_ ?_ ?_
  · intro q a q' _ locked _ other run
    have effect : Effect q a q' := step_effect run
    rcases effect.producer i with own | idle | same
    · exact absurd own other
    · simp [idle, EmplacePc.holds] at locked
    · exact Or.inr (by rw [same]; exact ⟨locked, le_rfl⟩)
  · rintro q a q' - locked - rfl run
    have effect : Effect q (.produce i) q' := step_effect run
    exact effect.emplaces locked
  · intro n stays
    obtain ⟨q', run⟩ := emplace_enabled (e.reach n) (stays n le_rfl).1
    exact ⟨n, le_rfl, _, q', trivial, rfl, run⟩

theorem consume_ends (fair : FairThreads e) :
    e.LeadsTo (fun q => 0 < (q.consumers i).pc.rank)
      (fun q => (q.consumers i).pc = .releasing ∨ q.items = [] ∧ (q.consumers i).pc = .waiting false) := by
  refine .descend_own (fair.consumers i) (fun q => (q.consumers i).pc.rank) ?_ ?_ ?_
  · intro q a q' _ inside _ other run
    have effect : Effect q a q' := step_effect run
    rcases effect.consumer i with own | ⟨same, -⟩ | ⟨idle, -⟩ | ⟨n, waiting, -⟩
    · exact absurd (Or.inl own) other
    · exact Or.inr (by rw [same]; exact ⟨inside, le_rfl⟩)
    · simp [idle, ConsumePc.rank] at inside
    · simp [waiting, ConsumePc.rank] at inside
  · rintro q a q' - inside - (rfl | ⟨rfl, waiting⟩) run
    · have effect : Effect q (.consume i) q' := step_effect run
      exact effect.consumes inside
    · simp [waiting, ConsumePc.rank] at inside
  · intro n stays
    obtain ⟨q', run⟩ := consume_enabled (e.reach n) (stays n le_rfl).1
    exact ⟨n, le_rfl, _, q', trivial, Or.inl rfl, run⟩

theorem release_ends (fair : FairThreads e) :
    e.LeadsTo (fun q => (q.consumers i).pc = .releasing) (fun q => (q.consumers i).pc = .idle) := by
  refine .descend_own (fair.consumers i) (fun q => (q.consumers i).scope.length) ?_ ?_ ?_
  · intro q a q' _ releasing _ other run
    have effect : Effect q a q' := step_effect run
    rcases effect.consumer i with own | ⟨same, scope⟩ | ⟨idle, -⟩ | ⟨n, waiting, -⟩
    · exact absurd (Or.inl own) other
    · exact Or.inr ⟨same.trans releasing, (congrArg List.length (scope releasing)).le⟩
    · simp [idle] at releasing
    · simp [waiting] at releasing
  · rintro q a q' - releasing - (rfl | ⟨rfl, waiting⟩) run
    · have effect : Effect q (.consume i) q' := step_effect run
      exact effect.releases releasing
    · simp [waiting] at releasing
  · intro n stays
    obtain ⟨q', run⟩ := release_enabled (e.reach n) (stays n le_rfl).1
    exact ⟨n, le_rfl, _, q', trivial, Or.inl rfl, run⟩

/-- The lock is given back again and again. -/
theorem lock_freed (fair : FairThreads e) : e.LeadsTo (fun _ => True) (fun q => q.lock = .free) := by
  intro n _
  by_contra none
  simp only [not_exists, not_and] at none
  obtain ⟨t, held⟩ : ∃ t, (e.state n).lock = .held t := by
    cases lock : (e.state n).lock with
    | free => exact absurd lock (none n le_rfl)
    | held t => exact ⟨t, rfl⟩
  have keeps (q : SimpleQueue) a q' (_ : system.Reach q) (held : q.lock = .held t) (_ : True)
      (run : system.step q a = some q') : q'.lock = .free ∨ q'.lock = .held t :=
    Effect.owner (step_effect run) held
  have always {m : Nat} (later : n ≤ m) : Holds (e.state m).producers (e.state m).consumers t :=
    (reach_lockInv (e.reach m) t).mpr (Execution.lasts_until keeps held none later)
  cases t with
  | producer i =>
    obtain ⟨m, later, idle⟩ := emplace_ends fair n (always le_rfl)
    have holds := always later
    simp [Holds, idle, EmplacePc.holds] at holds
  | consumer i =>
    have leaves {m : Nat} (later : n ≤ m) (releasing : ((e.state m).consumers i).pc = .releasing) : False := by
      obtain ⟨k, last, idle⟩ := release_ends fair m releasing
      have holds := always (later.trans last)
      simp [Holds, Consumer.holds, idle] at holds
    have inside : ((e.state n).consumers i).pc = .releasing ∨ 0 < ((e.state n).consumers i).pc.rank := by
      have holds := always le_rfl
      cases at_pc : ((e.state n).consumers i).pc <;> simp_all [Holds, Consumer.holds, ConsumePc.rank]
    rcases inside with releasing | inside
    · exact leaves le_rfl releasing
    · obtain ⟨m, later, releasing | ⟨-, waiting⟩⟩ := consume_ends fair n inside
      · exact leaves later releasing
      · have holds := always later
        simp [Holds, Consumer.holds, waiting] at holds

theorem emplace_locks (fair : FairThreads e) :
    e.LeadsTo (fun q => ∃ item, q.producers i = .locking item) (fun q => (q.producers i).holds = true) := by
  refine .once (fair.producers i) ?_ ?_ ?_
  · rintro q a q' - ⟨item, locking⟩ - run
    have effect : Effect q a q' := step_effect run
    rcases effect.producer i with rfl | idle | same
    · exact Or.inl (effect.emplace_locks locking)
    · simp [idle] at locking
    · exact Or.inr ⟨item, same.trans locking⟩
  · rintro q a q' - ⟨item, locking⟩ - rfl run
    have effect : Effect q (.produce i) q' := step_effect run
    exact effect.emplace_locks locking
  · intro n stays
    obtain ⟨m, later, free⟩ := lock_freed fair n trivial
    obtain ⟨⟨item, locking⟩, -⟩ := stays m later
    exact ⟨m, later, .produce i, _, trivial, rfl,
      by simp [system, step, produceStep, locking, free, Mutex.acquire]; rfl⟩

theorem consume_locks (fair : FairThreads e) :
    e.LeadsTo (fun q => (q.consumers i).pc = .locking ∨ (q.consumers i).pc = .relock)
      (fun q => 0 < (q.consumers i).pc.rank) := by
  refine .once (fair.consumers i) ?_ ?_ ?_
  · intro q a q' _ locking _ run
    have effect : Effect q a q' := step_effect run
    rcases effect.consumer i with rfl | ⟨same, -⟩ | ⟨idle, -⟩ | ⟨n, waiting, -⟩
    · exact Or.inl (effect.consume_locks locking)
    · exact Or.inr (by rwa [same])
    · simp [idle] at locking
    · simp [waiting] at locking
  · rintro q a q' - locking - (rfl | ⟨rfl, waiting⟩) run
    · have effect : Effect q (.consume i) q' := step_effect run
      exact effect.consume_locks locking
    · simp [waiting] at locking
  · intro n stays
    obtain ⟨m, later, free⟩ := lock_freed fair n trivial
    refine ⟨m, later, .consume i, ?_⟩
    rcases (stays m later).1 with locking | relock
    · exact ⟨_, trivial, Or.inl rfl, by simp [system, step, consumeStep, locking, free, Mutex.acquire]; rfl⟩
    · exact ⟨_, trivial, Or.inl rfl, by simp [system, step, consumeStep, relock, free, Mutex.acquire]; rfl⟩

theorem wakes (fair : FairThreads e) :
    e.LeadsTo (fun q => (q.consumers i).pc = .waiting true) (fun q => (q.consumers i).pc = .relock) := by
  refine .once (fair.consumers i) ?_ ?_ ?_
  · intro q a q' _ waiting _ run
    have effect : Effect q a q' := step_effect run
    rcases effect.consumer i with rfl | ⟨same, -⟩ | ⟨idle, -⟩ | ⟨n, -, notified | relock⟩
    · exact absurd waiting (effect.not_waiting true)
    · exact Or.inr (same.trans waiting)
    · simp [idle] at waiting
    · exact Or.inr notified
    · exact Or.inl relock
  · rintro q a q' - waiting - (rfl | ⟨rfl, -⟩) run
    · have effect : Effect q (.consume i) q' := step_effect run
      exact absurd waiting (effect.not_waiting true)
    · have effect : Effect q (.wake i) q' := step_effect run
      cases effect
      simp [goto, setConsumer]
  · intro n stays
    have waiting := (stays n le_rfl).1
    exact ⟨n, le_rfl, .wake i, _, trivial, Or.inr ⟨rfl, waiting⟩, by simp [system, step, waiting]; rfl⟩

/-- No wakeup is lost: whoever sleeps over a packet is notified by the producer that has put it. -/
theorem notified (fair : FairThreads e) :
    e.LeadsTo (fun q => (q.consumers i).pc = .waiting false)
      (fun q => q.items = [] ∨ (q.consumers i).pc = .waiting true ∨ (q.consumers i).pc = .relock) := by
  intro n asleep
  rcases reach_heard (e.reach n) i (by rw [asleep]; rfl) with empty | ⟨j, notifying⟩
  · exact ⟨n, le_rfl, Or.inl empty⟩
  suffices heard : e.LeadsTo (fun q => q.producers j = .notifying ∧ (q.consumers i).pc = .waiting false)
      (fun q => (q.consumers i).pc = .waiting true ∨ (q.consumers i).pc = .relock) by
    obtain ⟨m, later, awake⟩ := heard n ⟨notifying, asleep⟩
    exact ⟨m, later, Or.inr awake⟩
  refine .once (fair.producers j) ?_ ?_ ?_
  · rintro q a q' - ⟨notifying, asleep⟩ - run
    have effect : Effect q a q' := step_effect run
    rcases effect.producer j with rfl | idle | stays
    · exact Or.inl (Or.inl (effect.notifies notifying asleep))
    · simp [idle] at notifying
    rcases effect.consumer i with rfl | ⟨same, -⟩ | ⟨idle, -⟩ | ⟨n, -, awake⟩
    · exact absurd asleep (effect.not_waiting false)
    · exact Or.inr ⟨stays.trans notifying, same.trans asleep⟩
    · simp [idle] at asleep
    · exact Or.inl awake
  · rintro q a q' - ⟨notifying, asleep⟩ - rfl run
    have effect : Effect q (.produce j) q' := step_effect run
    exact Or.inl (effect.notifies notifying asleep)
  · intro n stays
    have locked : ((e.state n).producers j).holds = true := by rw [(stays n le_rfl).1.1]; rfl
    obtain ⟨q', run⟩ := emplace_enabled (e.reach n) locked
    exact ⟨n, le_rfl, _, q', trivial, rfl, run⟩

/-- Whoever has called `lock` gets a packet and comes to the end of its scope, unless the others empty the queue. -/
theorem served (fair : FairThreads e) :
    e.LeadsTo (fun q => (q.consumers i).pc ≠ .idle) (fun q => (q.consumers i).pc = .releasing ∨ q.items = []) := by
  have inside : e.LeadsTo (fun q => 0 < (q.consumers i).pc.rank)
      (fun q => (q.consumers i).pc = .releasing ∨ q.items = []) :=
    (consume_ends fair).mono (fun _ _ => id) (fun _ _ ends => ends.imp_right And.left)
  have locking := (consume_locks fair (i := i)).trans inside
  have awake : e.LeadsTo (fun q => (q.consumers i).pc = .waiting true ∨ (q.consumers i).pc = .relock)
      (fun q => (q.consumers i).pc = .releasing ∨ q.items = []) :=
    .cases ((wakes fair).trans (locking.mono (fun _ _ => Or.inr) (fun _ _ => id)))
      (locking.mono (fun _ _ => Or.inr) (fun _ _ => id)) (fun _ _ => id)
  have asleep := (notified fair (i := i)).trans (.cases (.of_imp (fun _ _ => Or.inr)) awake (fun _ _ => id))
  intro n busy
  cases at_pc : ((e.state n).consumers i).pc with
  | idle => exact absurd at_pc busy
  | locking => exact locking n (Or.inl at_pc)
  | relock => exact locking n (Or.inr at_pc)
  | waiting notified =>
    cases notified with
    | false => exact asleep n at_pc
    | true => exact awake n (Or.inl at_pc)
  | locked | test | front | pop => exact inside n (by simp [at_pc, ConsumePc.rank])
  | releasing => exact ⟨n, le_rfl, Or.inl at_pc⟩

end Progress

/-- Whatever the fair threads of a queue do: every call of `emplace` returns, the lock is given back, and every consumer
comes to the end of its scope, unless the queue is emptied again and again. -/
theorem calls_return (e : system.Execution fun _ _ => True) (fair : FairThreads e) (i n : Nat) :
    (∃ m, n ≤ m ∧ (e.state m).producers i = .idle) ∧ (∃ m, n ≤ m ∧ (e.state m).lock = .free) ∧
    ∃ m, n ≤ m ∧ (((e.state m).consumers i).pc = .idle ∨ (e.state m).items = []) := by
  refine ⟨?_, lock_freed fair n trivial, ?_⟩
  · have ends := emplace_ends fair (i := i)
    cases at_pc : (e.state n).producers i with
    | idle => exact ⟨n, le_rfl, at_pc⟩
    | locking item => exact (emplace_locks fair).trans ends n ⟨item, at_pc⟩
    | emplacing | notifying | unlocking => exact ends n (by simp [at_pc, EmplacePc.holds])
  · by_cases idle : ((e.state n).consumers i).pc = .idle
    · exact ⟨n, le_rfl, Or.inl idle⟩
    obtain ⟨m, later, releasing | empty⟩ := served fair n idle
    · obtain ⟨k, last, idle⟩ := release_ends fair m releasing
      exact ⟨k, later.trans last, Or.inl idle⟩
    · exact ⟨m, later, Or.inr empty⟩

section Consumed

variable {e : system.Execution fun _ _ => True} {i : Nat}

/-- A history that steps only add to. -/
theorem grows_on {α : Type} {f : SimpleQueue → List α} (grows : ∀ q a q', Effect q a q' → f q <+: f q') {n m : Nat}
    (later : n ≤ m) : f (e.state n) <+: f (e.state m) := by
  have keeps (q : SimpleQueue) a q' (_ : system.Reach q) (since : f (e.state n) <+: f q) (_ : True)
      (run : system.step q a = some q') : f (e.state n) <+: f q' :=
    since.trans (grows q a q' (step_effect run))
  exact Execution.lasts (P := fun q => f (e.state n) <+: f q) keeps List.prefix_rfl later

theorem emplaced_lasts {n m : Nat} (later : n ≤ m) : (e.state n).emplaced <+: (e.state m).emplaced :=
  grows_on (fun _ _ _ effect => effect.emplaced_grows) later

theorem consumed_lasts {n m : Nat} (later : n ≤ m) : (e.state n).consumed <+: (e.state m).consumed :=
  grows_on (fun _ _ _ effect => effect.consumed_grows) later

theorem due_lasts {c n m : Nat} (now : Due c i (e.state n)) (later : n ≤ m) : Due c i (e.state m) := by
  have keeps (q : SimpleQueue) a q' (_ : system.Reach q) (due : Due c i q) (_ : True)
      (run : system.step q a = some q') : Due c i q' :=
    Effect.due (step_effect run) due
  exact Execution.lasts keeps now later

/-- A consumer that is idle and is to work again calls `lock` first. -/
theorem asks {n : Nat} (idle : ((e.state n).consumers i).pc = .idle)
    (often : ∀ n, ∃ m, n ≤ m ∧ ((e.state m).consumers i).pc ≠ .idle) :
    ∃ m, n ≤ m ∧ ((e.state m).consumers i).pc = .locking := by
  by_contra none
  simp only [not_exists, not_and] at none
  have keeps (q : SimpleQueue) a q' (_ : system.Reach q) (idle : (q.consumers i).pc = .idle) (_ : True)
      (run : system.step q a = some q') : (q'.consumers i).pc = .locking ∨ (q'.consumers i).pc = .idle := by
    have effect : Effect q a q' := step_effect run
    rcases effect.consumer i with rfl | ⟨same, -⟩ | ⟨-, locking⟩ | ⟨n, waiting, -⟩
    · cases effect <;> simp_all
    · exact Or.inr (same.trans idle)
    · exact Or.inl locking
    · simp [idle] at waiting
  obtain ⟨m, later, busy⟩ := often n
  exact busy (Execution.lasts_until (P := fun q : SimpleQueue => (q.consumers i).pc = .idle) keeps idle none later)

/-- Unless the queue is emptied, a consumer that calls again and again takes one more packet. -/
theorem one_more (fair : FairThreads e) (often : ∀ n, ∃ m, n ≤ m ∧ ((e.state m).consumers i).pc ≠ .idle) (n : Nat)
    (full : ∀ m, n ≤ m → (e.state m).items ≠ []) :
    ∃ m, n ≤ m ∧ (e.state n).consumed.length < (e.state m).consumed.length := by
  obtain ⟨m, later, busy⟩ := often n
  obtain ⟨k, after, releasing | empty⟩ := served fair m busy
  swap
  · exact absurd empty (full k (later.trans after))
  obtain ⟨m', left, idle⟩ := release_ends fair k releasing
  obtain ⟨k', asked, locking⟩ := asks idle often
  have start : n ≤ k' := later.trans (after.trans (left.trans asked))
  have due : Due (e.state k').consumed.length i (e.state k') := ⟨le_rfl, by simp [locking]⟩
  obtain ⟨l, last, releasing | empty⟩ := served fair k' (i := i) (by simp [locking])
  · have taken := (due_lasts due last).2 (Or.inl releasing)
    exact ⟨l, start.trans last, (consumed_lasts start).length_le.trans_lt taken⟩
  · exact absurd empty (full l (start.trans last))

theorem takes_many (fair : FairThreads e) (often : ∀ n, ∃ m, n ≤ m ∧ ((e.state m).consumers i).pc ≠ .idle) (n : Nat)
    (full : ∀ m, n ≤ m → (e.state m).items ≠ []) (count : Nat) :
    ∃ m, n ≤ m ∧ count ≤ (e.state m).consumed.length := by
  induction count with
  | zero => exact ⟨n, le_rfl, Nat.zero_le _⟩
  | succ count ih =>
    obtain ⟨m, later, taken⟩ := ih
    obtain ⟨k, after, more⟩ := one_more fair often m (fun k after => full k (later.trans after))
    exact ⟨k, later.trans after, taken.trans_lt more⟩

end Consumed

/-- With fair threads and one consumer that calls `lock` again and again, whatever other consumers do, everything
that has been emplaced is taken in the end, in this order. -/
theorem everything_taken (e : system.Execution fun _ _ => True) (fair : FairThreads e) (i : Nat)
    (often : ∀ n, ∃ m, n ≤ m ∧ ((e.state m).consumers i).pc ≠ .idle) (n : Nat) :
    ∃ m, n ≤ m ∧ (e.state n).emplaced <+: (e.state m).consumed.map Prod.snd := by
  have balance m : (e.state m).consumed.map Prod.snd ++ (e.state m).items = (e.state m).emplaced := by
    obtain ⟨f, -, posted, taken, queue⟩ := refines_fifo.reach (e.reach m)
    rw [← posted, ← taken, ← queue, (f ()).balance]
  by_cases empties : ∃ m, n ≤ m ∧ (e.state m).items = []
  · obtain ⟨m, later, empty⟩ := empties
    have all := balance m
    rw [empty, List.append_nil] at all
    exact ⟨m, later, all ▸ emplaced_lasts later⟩
  · simp only [not_exists, not_and] at empties
    obtain ⟨m, later, taken⟩ := takes_many fair often n empties (e.state n).emplaced.length
    refine ⟨m, later, List.prefix_of_prefix_length_le (emplaced_lasts later) ?_ (by simpa using taken)⟩
    rw [← balance m]
    exact List.prefix_append _ _

/-- A run after which the producer has returned, and the consumer has taken the packet, has called `lock` again and
waits for the next one. -/
def takeThenWait : List QueueAction :=
  [.lock 0, .consume 0, .consume 0, .consume 0, .emplace 0 ⟨0, ⟨2, [7]⟩⟩, .produce 0, .produce 0, .produce 0,
    .produce 0, .wake 0, .consume 0, .consume 0, .consume 0, .consume 0, .consume 0, .consume 0, .lock 0, .consume 0,
    .consume 0, .consume 0]

/-- After it no thread can go on. -/
theorem takeThenWait_stops : ∃ e : system.Execution fun _ _ => True, FairThreads e ∧
    (∀ n, takeThenWait.length ≤ n → ((e.state n).consumers 0).pc ≠ .idle) ∧
    (e.state 8).emplaced = [⟨0, ⟨2, [7]⟩⟩] ∧ (e.state 8).consumed = [] := by
  obtain ⟨q, run, producers, consumers, waiting⟩ : ∃ q, system.run system.start takeThenWait = some q ∧
      (∀ i, q.producers i = .idle) ∧ (∀ i, (q.consumers i).pc = .idle ∨ (q.consumers i).pc = .waiting false) ∧
      (q.consumers 0).pc = .waiting false := by
    refine ⟨_, rfl, fun i => ?_, fun i => ?_, rfl⟩
    · cases i <;> rfl
    · cases i with
      | zero => exact Or.inr rfl
      | succ => exact Or.inl rfl
  have met : Execution.Meets system (fun _ _ => True) system.start takeThenWait :=
    .of_forall (fun _ _ _ => trivial) _
  refine ⟨.ofRun system takeThenWait met run, ⟨fun i => ?_, fun i => ?_⟩, fun n past => ?_, rfl, rfl⟩
  · refine Execution.fair_ofRun ?_
    rintro ⟨-, q', -, rfl, moved⟩
    simp [system, step, produceStep, producers i] at moved
  · refine Execution.fair_ofRun ?_
    rintro ⟨-, q', -, rfl | ⟨rfl, notified⟩, moved⟩
    · rcases consumers i with at_pc | at_pc <;> simp [system, step, consumeStep, at_pc] at moved
    · rcases consumers i with at_pc | at_pc <;> simp [at_pc] at notified
  · rw [Execution.ofRun_last past, waiting]
    simp

theorem calls_return_taken : ∃ e : system.Execution fun _ _ => True, FairThreads e ∧
    (∃ m, 8 ≤ m ∧ (e.state m).producers 0 = .idle) ∧ (∃ m, 8 ≤ m ∧ (e.state m).lock = .free) ∧
    ∃ m, 8 ≤ m ∧ (((e.state m).consumers 0).pc = .idle ∨ (e.state m).items = []) := by
  obtain ⟨e, fair, -⟩ := takeThenWait_stops
  exact ⟨e, fair, calls_return e fair 0 8⟩

theorem everything_taken_once : ∃ e : system.Execution fun _ _ => True, FairThreads e ∧
    (e.state 8).emplaced = [⟨0, ⟨2, [7]⟩⟩] ∧ (e.state 8).consumed = [] ∧
    ∃ m, 8 ≤ m ∧ (e.state 8).emplaced <+: (e.state m).consumed.map Prod.snd := by
  obtain ⟨e, fair, waits, emplaced, consumed⟩ := takeThenWait_stops
  have often (n : Nat) : ∃ m, n ≤ m ∧ ((e.state m).consumers 0).pc ≠ .idle :=
    ⟨max n takeThenWait.length, le_max_left _ _, waits _ (le_max_right _ _)⟩
  exact ⟨e, fair, emplaced, consumed, everything_taken e fair 0 often 8⟩

end SimpleQueue

end PacketComms
