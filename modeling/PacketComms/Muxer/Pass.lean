import PacketComms.Muxer.Accounting
import PacketComms.Muxer.Posting
import PacketComms.Muxer.StopFlag

namespace PacketComms

/-- The queues in which the pass under way can still find a packet. -/
def SendPc.pass : SendPc → Option (List PacketType)
  | .visit types => some types
  | .drain type types | .write type types _ _ | .assign type types _ | .pop type types => some (type :: types)
  | _ => none

theorem SendPc.pass_holds {pc : SendPc} {types : List PacketType} (passing : pc.pass = some types) : pc.holds = 1 := by
  cases pc <;> simp_all [SendPc.pass, SendPc.holds]

/-- The destructor has stored the flag. -/
def DestructorPc.Stored (pc : DestructorPc) : Prop := pc = .unlocking ∨ pc = .joining ∨ pc = .returned

namespace PacketMuxer

@[simp] theorem notify_pass (m : PacketMuxer) : m.notify.send.pass = m.send.pass :=
  m.notify_send.congr SendPc.pass (fun _ => rfl)

/-- Until the flag is set, a pass has not yet been where there are packets. -/
def CoverInv (m : PacketMuxer) : Prop :=
  m.transportError = false → ∀ types, m.send.pass = some types → ∀ type, m.txQueues.get type ≠ [] → type ∈ types

theorem CoverInv.congr {m m' : PacketMuxer} (inv : CoverInv m) (pass : m'.send.pass = m.send.pass)
    (get : m'.txQueues.get = m.txQueues.get) (flag : m'.transportError = false → m.transportError = false) :
    CoverInv m' := by
  intro calm
  rw [pass, get]
  exact inv (flag calm)

/-- A call that has not got the lock does not touch the queues. -/
theorem Emplaced.outside {m m' : PacketMuxer} {t : MuxerThread} {alloc : Bool} {pc pc' : PostPc}
    (step : Emplaced m t alloc pc pc' m') (free : pc.holds = 0) : m'.txQueues = m.txQueues := by
  cases step with
  | locked => rfl
  | threw | emplaced | signalled | unlocked => cases free

theorem Effect.coverInv {ids : IdManager} {m m' : PacketMuxer} {action : MuxerAction} (lock : LockInv m)
    (write : WriteInv m) (inv : CoverInv m) (effect : Effect ids m action m') : CoverInv m' := by
  cases effect with
  | threw => exact inv
  | called | destroy | destroyLocked | destroyUnlocked | destroyJoined => exact inv.congr rfl rfl id
  | @user i alloc pc next step =>
    have pass : next.send.pass = m.send.pass := step.send.congr SendPc.pass (fun _ => rfl)
    intro calm types passing
    have passing' : m.send.pass = some types := pass.symm.trans passing
    have own : 0 < m.holds .send := by
      have one := SendPc.pass_holds passing'
      simp [holds, one]
    have free : (m.users i).holds = 0 := lock.exclusive (u := .user i) own (by simp)
    have queues : next.txQueues = m.txQueues := step.outside free
    have flag : next.transportError = m.transportError := step.sending_side.2.2.2.1
    dsimp only at calm ⊢
    rw [queues]
    exact inv (flag.symm.trans calm) types passing'
  | destroyStored =>
    intro calm
    simp at calm
  | @iterates types at_pc perm =>
    intro _ types' passing type queued
    cases passing
    by_contra out
    exact queued (m.txQueues.absent type (fun member => out (perm.mem_iff.mpr member)))
  | @drained type types at_pc reason =>
    intro calm types' passing other queued
    cases passing
    have empty : m.txQueues.get type = [] := reason.resolve_left (by simp [show m.transportError = false from calm])
    have covered := inv calm (type :: types) (by rw [at_pc]; rfl) other queued
    rcases List.mem_cons.mp covered with rfl | later
    · exact absurd empty queued
    · exact later
  | assigned at_pc => exact inv.congr (by rw [at_pc]; rfl) rfl (fun _ => write.unset (Or.inl at_pc))
  | @popped type types packet packets at_pc queue =>
    intro calm types' passing other queued
    cases passing
    by_cases same : other = type
    · subst same
      exact List.mem_cons_self
    · exact inv calm _ (by rw [at_pc]; rfl) other (by simpa [same] using queued)
  | visits at_pc | handed at_pc | skipped at_pc | failed at_pc | accepted at_pc | interrupted at_pc
  | finished at_pc => exact inv.congr (by rw [at_pc]; rfl) rfl id
  | entered | hello | greeted | locked | continues | stops | waits | busy | woken | relocked | timedOut | heartBeat
  | beaten | passed | asserted | unlocked =>
    intro _ types passing
    cases passing

theorem reach_coverInv {ids : IdManager} {C : PacketMuxer → MuxerAction → Prop} {m : PacketMuxer}
    (reach : (system ids).ReachUnder C m) : CoverInv m := by
  refine reach.invariant ?_ (fun before inv _ run =>
    (step_effect run).coverInv (reach_lockInv before) (reach_writeInv before) inv)
  intro _ types passing
  cases passing

/-- Only a pop makes the queues shorter. -/
theorem CountChange.total_le {m m' : PacketMuxer} (change : CountChange m m') (sent : m'.numSent = m.numSent) :
    m.txQueues.total ≤ m'.txQueues.total := by
  cases change with
  | quiet _ _ _ _ _ same | signalled _ _ _ _ _ _ same => rw [same]
  | posted _ _ _ _ _ _ more => omega
  | popped _ _ more =>
    rw [more] at sent
    simp at sent

theorem Emplaced.numSent {m m' : PacketMuxer} {t : MuxerThread} {alloc : Bool} {pc pc' : PostPc}
    (step : Emplaced m t alloc pc pc' m') : m'.numSent = m.numSent := by
  cases step with
  | signalled => simp [signalPacketPosted]
  | locked | threw | emplaced | unlocked => rfl

/-- The heart beat that the send thread has put into its queue is still there before the next pass. -/
theorem Effect.beats {ids : IdManager} {m m' : PacketMuxer} {action : MuxerAction} (lock : LockInv m)
    (post : PostInv (fun _ _ => True) ids m)
    (inv : ∀ pc, m.send = .heartBeat pc → pc.queued = true → m.txQueues.total ≠ 0) (effect : Effect ids m action m')
    {pc : PostPc} (at_pc : m'.send = .heartBeat pc) (queued : pc.queued = true) : m'.txQueues.total ≠ 0 := by
  have change := effect.countChange lock
  cases effect with
  | threw | called | destroy | destroyLocked | destroyUnlocked | destroyJoined => exact inv pc at_pc queued
  | @user i alloc pc' next step =>
    have before : m.send = .heartBeat pc := step.send.before at_pc (by simp)
    have positive := inv pc before queued
    have grown : m.txQueues.total ≤ next.txQueues.total := change.total_le step.numSent
    dsimp only
    omega
  | @heartBeat pc₀ pc₁ next at_pc₀ step =>
    cases at_pc
    have about := post.send
    rw [at_pc₀] at about
    have grown : m.txQueues.total ≤ next.txQueues.total := change.total_le step.numSent
    cases step with
    | locked => cases queued
    | @threw name type args failed =>
      obtain ⟨-, -, msg, rfl⟩ := about
      simp [ControlMessage.args, ComPacket.make] at failed
    | @emplaced name type args packet =>
      have longer := m.txQueues.total_set type (m.txQueues.get type ++ [⟨m.nextAddr, packet⟩])
      rw [List.length_append, List.length_singleton] at longer
      dsimp only
      omega
    | signalled | unlocked =>
      have positive := inv _ at_pc₀ rfl
      dsimp only at grown ⊢
      omega
  | timedOut =>
    cases at_pc
    cases queued
  | destroyStored =>
    have before : m.send = .heartBeat pc := m.stored_send.before at_pc (by simp)
    simpa using inv pc before queued
  | _ => cases at_pc

theorem reach_beats {ids : IdManager} {m : PacketMuxer} (reach : (system ids).Reach m) {pc : PostPc}
    (at_pc : m.send = .heartBeat pc) (queued : pc.queued = true) : m.txQueues.total ≠ 0 := by
  revert pc
  refine reach.invariant
    (I := fun m => ∀ {pc : PostPc}, m.send = .heartBeat pc → pc.queued = true → m.txQueues.total ≠ 0)
    ?_ ?_
  · intro pc at_pc
    cases at_pc
  · intro m action m' before inv _ run pc at_pc queued
    have post : PostInv (fun _ _ => True) ids m :=
      reach_postInv (fun _ action _ => by cases action <;> trivial) before
    exact (step_effect run).beats (reach_lockInv before) post (fun pc => inv) at_pc queued

/-- The counters are compared while the flag is not set. -/
theorem reach_compare {ids : IdManager} {m : PacketMuxer} (reach : (system ids).Reach m) (at_pc : m.send = .compare) :
    m.transportError = false := by
  revert at_pc
  refine reach.invariant (I := fun m => m.send = .compare → m.transportError = false) (by simp [system]) ?_
  intro m action m' before inv _ run at_pc
  have effect := step_effect run
  cases effect with
  | threw | called | destroy | destroyLocked | destroyUnlocked | destroyJoined => exact inv at_pc
  | user step =>
    have compares : m.send = .compare := step.send.before at_pc (by simp)
    obtain ⟨-, -, -, flag, -⟩ := step.sending_side
    exact flag.trans (inv compares)
  | continues _ flag => exact flag
  | destroyStored stores =>
    have compares : m.send = .compare := m.stored_send.before at_pc (by simp)
    have free : m.holds .send = 0 :=
      (reach_lockInv before).exclusive (t := .destructor) (by simp [holds, stores, DestructorPc.holds]) (by simp)
    simp [holds, compares, SendPc.holds] at free
  | _ => cases at_pc

/-- Behind the store the flag is set. -/
theorem reach_stored {ids : IdManager} {m : PacketMuxer} (reach : (system ids).Reach m) (stored : m.destructor.Stored) :
    m.transportError = true := by
  revert stored
  refine reach.invariant (I := fun m => m.destructor.Stored → m.transportError = true)
    (by simp [system, DestructorPc.Stored]) ?_
  intro m action m' before inv _ run stored
  have effect := step_effect run
  have keeps := effect.keeps_flag (reach_writeInv before)
  by_cases earlier : m.destructor.Stored
  · exact keeps (inv earlier)
  · cases effect with
    | destroyStored => simp
    | user step | hello _ step | heartBeat _ step =>
      obtain ⟨-, -, destructor, -⟩ := step.lock
      exact absurd (by simpa [destructor] using stored) earlier
    | destroy | destroyLocked => simp [DestructorPc.Stored] at stored
    | destroyUnlocked at_pc | destroyJoined at_pc => simp [DestructorPc.Stored, at_pc] at earlier
    | _ => exact absurd stored earlier

end PacketMuxer

end PacketComms
