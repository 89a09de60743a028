import PacketComms.Muxer.Effect

namespace PacketComms

/-- How often a thread at this point of `emplacePacket` holds `m_txLock` through its guard. -/
def PostPc.holds : PostPc → Nat
  | .idle | .locking .. => 0
  | .emplacing .. | .signalling | .unlocking => 1

/-- The packet of the call is in its queue. -/
def PostPc.queued : PostPc → Bool
  | .locking .. | .emplacing .. => false
  | _ => true

/-- How often the send thread holds it: `wait_for` has given the lock back. -/
def SendPc.holds : SendPc → Nat
  | .entered | .lock | .waiting _ | .relock _ | .exited => 0
  | .hello pc => pc.holds
  | .heartBeat pc => pc.holds + 1
  | .test | .compare | .scan | .visit _ | .drain .. | .write .. | .assign .. | .pop .. | .unlock | .aborted _ => 1

/-- The queue whose front is in the hands of `sendPacket`, or was when it aborted. -/
def SendPc.sending : SendPc → Option PacketType
  | .write type .. | .assign type .. | .pop type _ | .aborted type => some type
  | _ => none

theorem SendPc.sending_holds {pc : SendPc} {type : PacketType} (sending : pc.sending = some type) :
    pc.holds = 1 := by
  cases pc <;> simp_all [SendPc.sending, SendPc.holds]

/-- What the other threads can do to the send thread: they notify it, and it hears that while it waits. -/
def SendPc.Notified (pc pc' : SendPc) : Prop := pc' = pc ∨ ∃ n, pc = .waiting n ∧ pc' = .waiting true

/-- What does not tell one wait from another is the same behind a notification. -/
theorem SendPc.Notified.congr {β : Sort _} {pc pc' : SendPc} (moved : pc.Notified pc') (f : SendPc → β)
    (blind : ∀ n, f (.waiting n) = f (.waiting true)) : f pc' = f pc := by
  rcases moved with same | ⟨n, waiting, notified⟩
  · rw [same]
  · rw [waiting, notified, blind n]

/-- A send thread that was not woken is where it was. -/
theorem SendPc.Notified.before {pc pc' at_pc : SendPc} (moved : pc.Notified pc') (after : pc' = at_pc)
    (awake : at_pc ≠ .waiting true) : pc = at_pc := by
  rcases moved with same | ⟨n, -, notified⟩
  · exact same.symm.trans after
  · exact absurd (after.symm.trans notified) awake

/-- No notification makes the send thread wait. -/
theorem SendPc.Notified.waits {pc pc' : SendPc} {n : Bool} (moved : pc.Notified pc') (after : pc' = .waiting n) :
    ∃ k, pc = .waiting k := by
  rcases moved with same | ⟨k, waiting, -⟩
  · exact ⟨n, same.symm.trans after⟩
  · exact ⟨k, waiting⟩

def DestructorPc.holds : DestructorPc → Nat
  | .storing | .unlocking => 1
  | _ => 0

namespace PacketMuxer

section Notify

variable (m : PacketMuxer)

/-- A notification changes nothing but where the send thread is. -/
theorem notify_congr {β : Sort _} (f : PacketMuxer → β) (blind : ∀ send, f { m with send := send } = f m) :
    f m.notify = f m := by
  unfold notify
  split
  · exact blind _
  · rfl

@[simp] theorem notify_txLock : m.notify.txLock = m.txLock := m.notify_congr txLock (fun _ => rfl)
@[simp] theorem notify_txQueues : m.notify.txQueues = m.txQueues := m.notify_congr txQueues (fun _ => rfl)
@[simp] theorem notify_transportError : m.notify.transportError = m.transportError :=
  m.notify_congr transportError (fun _ => rfl)
@[simp] theorem notify_users : m.notify.users = m.users := m.notify_congr users (fun _ => rfl)
@[simp] theorem notify_destructor : m.notify.destructor = m.destructor := m.notify_congr destructor (fun _ => rfl)
@[simp] theorem notify_nextAddr : m.notify.nextAddr = m.nextAddr := m.notify_congr nextAddr (fun _ => rfl)
@[simp] theorem notify_wire : m.notify.wire = m.wire := m.notify_congr wire (fun _ => rfl)
@[simp] theorem notify_written : m.notify.written = m.written := m.notify_congr written (fun _ => rfl)
@[simp] theorem notify_log : m.notify.log = m.log := m.notify_congr log (fun _ => rfl)

/-- A notification is seen by a send thread that waits, and by nobody else. -/
theorem notify_send : m.send.Notified m.notify.send := by
  unfold notify
  split
  · rename_i n waiting
    exact Or.inr ⟨n, waiting, rfl⟩
  · exact Or.inl rfl

theorem notify_heard : m.notify.send ≠ .waiting false := by
  unfold notify
  split
  · simp
  · rename_i awake
    exact awake false

/-- What the destructor does to the send thread when it stores the flag. -/
theorem stored_send :
    m.send.Notified ({ m with transportError := true, destructor := .unlocking } : PacketMuxer).notify.send :=
  notify_send _

@[simp] theorem notify_holds : m.notify.send.holds = m.send.holds := m.notify_send.congr SendPc.holds (fun _ => rfl)
@[simp] theorem notify_sending : m.notify.send.sending = m.send.sending :=
  m.notify_send.congr SendPc.sending (fun _ => rfl)

end Notify

/-- Whatever `emplacePacket` does to the send thread is a notification. -/
theorem Emplaced.send {m m' : PacketMuxer} {t : MuxerThread} {alloc : Bool} {pc pc' : PostPc}
    (step : Emplaced m t alloc pc pc' m') : m.send.Notified m'.send := by
  cases step with
  | signalled => exact ({ m with numPosted := m.numPosted + 1 } : PacketMuxer).notify_send
  | locked | threw | emplaced | unlocked => exact Or.inl rfl

/-- How often each thread must hold `m_txLock`, by where it is. -/
def holds (m : PacketMuxer) : MuxerThread → Nat
  | .send => m.send.holds
  | .destructor => m.destructor.holds
  | .user i => (m.users i).holds

/-- The lock says what the program counters say. -/
def LockInv (m : PacketMuxer) : Prop := ∀ t, m.txLock.heldBy t = m.holds t

theorem LockInv.exclusive {m : PacketMuxer} (inv : LockInv m) {t u : MuxerThread} (ht : 0 < m.holds t)
    (other : u ≠ t) : m.holds u = 0 := by
  by_contra positive
  have hu : 0 < m.txLock.heldBy u := by rw [inv u]; omega
  exact other (RecursiveMutex.heldBy_unique hu (by rw [inv t]; exact ht))

/-- A step of `emplacePacket` moves the lock and the program counter of its thread
together, and leaves the other threads where they are. -/
theorem Emplaced.lock {m m' : PacketMuxer} {t : MuxerThread} {alloc : Bool} {pc pc' : PostPc}
    (step : Emplaced m t alloc pc pc' m') :
    (∀ u, m'.txLock.heldBy u + (if u = t then pc.holds else 0) =
      m.txLock.heldBy u + (if u = t then pc'.holds else 0)) ∧
    m'.users = m.users ∧ m'.destructor = m.destructor ∧ m'.send.holds = m.send.holds ∧
    m'.send.sending = m.send.sending := by
  cases step with
  | locked acquired =>
    refine ⟨fun u => ?_, rfl, rfl, rfl, rfl⟩
    simp only [RecursiveMutex.acquire_heldBy acquired u, PostPc.holds, ite_self, Nat.add_zero]
  | threw => exact ⟨fun u => rfl, rfl, rfl, rfl, rfl⟩
  | emplaced => exact ⟨fun u => rfl, rfl, rfl, rfl, rfl⟩
  | signalled => simp [signalPacketPosted, PostPc.holds]
  | unlocked released =>
    refine ⟨fun u => ?_, rfl, rfl, rfl, rfl⟩
    simp only [RecursiveMutex.release_heldBy released u, PostPc.holds, ite_self, Nat.add_zero]

theorem Effect.lockInv {ids : IdManager} {m m' : PacketMuxer} {action : MuxerAction} (inv : LockInv m)
    (effect : Effect ids m action m') : LockInv m' := by
  intro t
  have before := inv t
  cases effect with
  | threw => exact before
  | @called i name type args idle issued =>
    cases t with
    | user j =>
      by_cases same : j = i
      · subst same
        simpa [holds, idle, PostPc.holds] using before
      · simpa [holds, Function.update_of_ne same] using before
    | _ => exact before
  | @user i alloc pc next step =>
    obtain ⟨lock, users, destructor, send, -⟩ := step.lock
    have after := lock t
    cases t with
    | user j =>
      by_cases same : j = i
      · subst same
        simp only [holds, if_true, Function.update_self] at *
        omega
      · have other : MuxerThread.user j ≠ .user i := fun eq => same (by cases eq; rfl)
        simp only [holds, other, if_false, Function.update_of_ne same, users] at *
        omega
    | send => simp [holds, send] at *; omega
    | destructor => simp [holds, destructor] at *; omega
  | hello at_pc step | heartBeat at_pc step =>
    obtain ⟨lock, users, destructor, send, -⟩ := step.lock
    have after := lock t
    cases t <;> simp [holds, SendPc.holds, at_pc, users, destructor] at * <;> omega
  | locked at_pc lock | relocked at_pc lock | timedOut at_pc lock =>
    have after := RecursiveMutex.acquire_heldBy lock t
    cases t <;> simp [holds, SendPc.holds, PostPc.holds, at_pc] at * <;> omega
  | waits at_pc _ lock | unlocked at_pc lock =>
    have after := RecursiveMutex.release_heldBy lock t
    cases t <;> simp [holds, SendPc.holds, at_pc] at * <;> omega
  | destroyLocked at_pc lock =>
    have after := RecursiveMutex.acquire_heldBy lock t
    cases t <;> simp [holds, DestructorPc.holds, at_pc] at * <;> omega
  | destroyUnlocked at_pc lock =>
    have after := RecursiveMutex.release_heldBy lock t
    cases t <;> simp [holds, DestructorPc.holds, at_pc] at * <;> omega
  | destroy at_pc | destroyStored at_pc | destroyJoined at_pc =>
    cases t <;> simp [holds, DestructorPc.holds, at_pc] at * <;> omega
  | entered at_pc | greeted at_pc | continues at_pc | stops at_pc | busy at_pc | woken at_pc | beaten at_pc
  | iterates at_pc | passed at_pc | visits at_pc | drained at_pc | handed at_pc | asserted at_pc
  | skipped at_pc | failed at_pc | accepted at_pc | interrupted at_pc | finished at_pc | assigned at_pc
  | popped at_pc =>
    cases t <;> simp [holds, SendPc.holds, PostPc.holds, at_pc] at * <;> omega

theorem reach_lockInv {ids : IdManager} {C : PacketMuxer → MuxerAction → Prop} {m : PacketMuxer}
    (reach : (system ids).ReachUnder C m) : LockInv m :=
  reach.invariant (fun t => by cases t <;> rfl) (fun _ inv _ run => (step_effect run).lockInv inv)

end PacketMuxer

end PacketComms
