import PacketComms.Lib.Possibility
import PacketComms.Muxer.Enabled
import PacketComms.Muxer.Pass

namespace PacketComms

/-- Only the send thread and the destructor take steps, and every write returns 0. -/
def StalledPeer : MuxerAction → Prop
  | .send | .wake _ | .iterate _ | .destroyed => True
  | .write answer => answer = .count 0
  | _ => False

/-- How many steps of the call of `emplacePacket` are left. -/
def PostPc.rank : PostPc → Nat
  | .idle => 0
  | .unlocking => 1
  | .signalling => 2
  | .emplacing .. => 3
  | .locking .. => 4

/-- A bound for the steps that the send thread can take before it waits or leaves, if it has no byte to
write. `keys` is the number of queues. -/
def SendPc.rank (keys : Nat) : SendPc → Nat
  | .exited | .aborted _ => 0
  | .unlock => 1
  | .compare => 2
  | .test => 3
  | .visit types => 4 + 3 * types.length
  | .drain _ types => 6 + 3 * types.length
  | .pop _ types => 7 + 3 * types.length
  | .assign _ types _ => 8 + 3 * types.length
  | .write _ types fields _ => 9 + 3 * types.length + fields.length
  | .lock => 4
  | .hello pc => 5 + pc.rank
  | .entered => 10
  | .scan => 5 + 3 * keys
  | .heartBeat pc => 6 + 3 * (keys + if pc.queued then 0 else 1) + pc.rank
  | .relock _ => 14 + 3 * keys
  | .waiting _ => 15 + 3 * keys

namespace PacketMuxer

/-- The send thread, if it has the lock, gives it back without writing a byte: it is stopped by the flag, or
finds nothing to send but the rest of a packet that has been written. -/
def Yields (m : PacketMuxer) : Prop :=
  match m.send with
  | .test | .compare => m.transportError = true ∨ m.numPosted = m.numSent
  | .heartBeat _ => m.transportError = true
  | .scan | .visit _ | .drain .. => m.transportError = true ∨ m.txQueues.total = 0
  | .write _ _ fields ok => fields.flatten = [] ∧ (ok = false ∨ m.txQueues.total = 1)
  | .assign _ _ ok => ok = false ∨ m.txQueues.total = 1
  | .pop .. => m.transportError = true ∨ m.txQueues.total = 1
  | .aborted _ => False
  | _ => True

def rank (m : PacketMuxer) : Nat := m.send.rank m.txQueues.keys.length

/-- The threads that post are outside the lock, and so is the destructor, which is at `pc`. -/
structure Clear (ids : IdManager) (pc : DestructorPc) (m : PacketMuxer) : Prop where
  reach : (system ids).Reach m
  users : ∀ i, (m.users i).holds = 0
  destructor : m.destructor = pc
  outside : pc.holds = 0

theorem Clear.free {ids : IdManager} {pc : DestructorPc} {m : PacketMuxer} (clear : Clear ids pc m) {t : MuxerThread}
    (other : t ≠ .send) : m.txLock.heldBy t = 0 := by
  have lock := reach_lockInv clear.reach t
  cases t with
  | send => exact absurd rfl other
  | destructor => rw [lock, holds, clear.destructor, clear.outside]
  | user i => rw [lock, holds, clear.users]

/-- The send thread can take the lock, -/
theorem Clear.acquire {ids : IdManager} {pc : DestructorPc} {m : PacketMuxer} (clear : Clear ids pc m) :
    ∃ l, m.txLock.acquire .send = some l :=
  RecursiveMutex.acquire_exists (fun _ other => clear.free other)

/-- and can give it back if it has it. -/
theorem Clear.release {ids : IdManager} {pc : DestructorPc} {m : PacketMuxer} (clear : Clear ids pc m)
    (held : 0 < m.send.holds) : ∃ l, m.txLock.release .send = some l := by
  have lock : m.txLock.heldBy .send = m.send.holds := reach_lockInv clear.reach .send
  exact RecursiveMutex.release_exists (lock ▸ held)

/-- The send thread moves nobody else. -/
theorem Effect.moves_send {ids : IdManager} {m m' : PacketMuxer} {action : MuxerAction}
    (effect : Effect ids m action m') (permitted : StalledPeer action) (own : action ≠ .destroyed) :
    m'.users = m.users ∧ m'.destructor = m.destructor := by
  cases effect with
  | threw | called | user | destroy => cases permitted
  | destroyLocked | destroyStored | destroyUnlocked | destroyJoined => exact absurd rfl own
  | hello _ step | heartBeat _ step =>
    obtain ⟨-, users, destructor, -⟩ := step.lock
    exact ⟨users, destructor⟩
  | _ => exact ⟨rfl, rfl⟩

theorem Clear.step {ids : IdManager} {pc : DestructorPc} {m m' : PacketMuxer} {action : MuxerAction}
    (clear : Clear ids pc m) (permitted : StalledPeer action) (own : action ≠ .destroyed)
    (run : step ids m action = some m') : Clear ids pc m' := by
  obtain ⟨users, destructor⟩ := (step_effect run).moves_send permitted own
  exact ⟨clear.reach.next trivial run, by simpa [users] using clear.users, destructor.trans clear.destructor,
    clear.outside⟩

/-- A step of the send thread that brings it nearer to its end. -/
def Advances (ids : IdManager) (m : PacketMuxer) : Prop :=
  ∃ action m', StalledPeer action ∧ action ≠ .destroyed ∧ step ids m action = some m' ∧
    (m'.transportError = false ∧ m'.send.holds = 0 ∨
      (m'.transportError = true ∨ m'.Yields) ∧ m'.rank < m.rank)

theorem advances_send {ids : IdManager} {m m' : PacketMuxer} (effect : Effect ids m .send m')
    (still : m'.transportError = true ∨ m'.Yields) (less : m'.rank < m.rank) : Advances ids m :=
  ⟨.send, m', trivial, by simp, effect.run_send, Or.inr ⟨still, less⟩⟩

/-- The send thread's own call of `emplacePacket` goes on. -/
theorem Clear.emplaced {ids : IdManager} {d : DestructorPc} {m : PacketMuxer} (clear : Clear ids d m) {pc : PostPc}
    (busy : pc ≠ .idle) (held : pc.holds ≤ m.send.holds) : ∃ pc' m', Emplaced m .send true pc pc' m' := by
  cases pc with
  | idle => exact absurd rfl busy
  | locking name type args =>
    obtain ⟨l, lock⟩ := clear.acquire
    exact ⟨_, _, .locked lock⟩
  | emplacing name type args =>
    cases made : ComPacket.make type args with
    | none => exact ⟨_, _, .threw made⟩
    | some packet => exact ⟨_, _, .emplaced rfl made⟩
  | signalling => exact ⟨_, _, .signalled⟩
  | unlocking =>
    obtain ⟨l, lock⟩ := clear.release held
    exact ⟨_, _, .unlocked lock⟩

/-- A step of a call of `emplacePacket` leaves fewer of them, and adds a queue at most once. -/
theorem Emplaced.rank {m m' : PacketMuxer} {t : MuxerThread} {alloc : Bool} {pc pc' : PostPc}
    (step : Emplaced m t alloc pc pc' m') : pc'.rank < pc.rank ∧
      m'.txQueues.keys.length + (if pc'.queued then 0 else 1) ≤
        m.txQueues.keys.length + (if pc.queued then 0 else 1) := by
  cases step with
  | locked | unlocked => simp [PostPc.rank, PostPc.queued]
  | signalled => simp [PostPc.rank, PostPc.queued, signalPacketPosted]
  | threw | emplaced => simp [PostPc.rank, PostPc.queued, KeyedLists.length_keys_touch]

/-- Within a pass. -/
theorem Clear.advances_pass {ids : IdManager} {d : DestructorPc} {m : PacketMuxer} (clear : Clear ids d m)
    (may : m.transportError = true ∨ m.Yields) (passing : m.send.pass ≠ none) : Advances ids m := by
  cases at_pc : m.send with
  | visit types =>
    cases types with
    | nil =>
      refine advances_send (.passed at_pc) ?_ (by simp [rank, at_pc, SendPc.rank])
      simp only [Yields, at_pc] at may
      rcases may with flag | flag | empty
      · exact Or.inl flag
      · exact Or.inl flag
      · have calm := (reach_lockInv clear.reach).calm_of_send at_pc Nat.one_pos rfl
        exact Or.inr (Or.inr ((reach_countInv clear.reach).equal calm empty))
    | cons type types =>
      refine advances_send (.visits at_pc) ?_ ?_
      · simpa [Yields, at_pc] using may
      · simp [rank, at_pc, SendPc.rank]
        omega
  | drain type types =>
    have stops : m.transportError = true ∨ m.txQueues.get type = [] := by
      simp only [Yields, at_pc] at may
      rcases may with flag | flag | empty
      · exact Or.inl flag
      · exact Or.inl flag
      · exact Or.inr (KeyedLists.get_eq_nil_of_total empty type)
    refine advances_send (.drained at_pc stops) ?_ (by simp [rank, at_pc, SendPc.rank])
    simpa [Yields, at_pc] using may
  | write type types fields ok =>
    have flag := (reach_writeInv clear.reach).unset (Or.inr ⟨fields, at_pc⟩)
    obtain ⟨written, last⟩ : fields.flatten = [] ∧ (ok = false ∨ m.txQueues.total = 1) := by
      simpa only [Yields, at_pc, flag, Bool.false_eq_true, false_or] using may
    cases fields with
    | nil =>
      exact advances_send (.finished at_pc) (.inr last) (by simp [rank, at_pc, SendPc.rank])
    | cons buffer fields =>
      obtain ⟨rfl, rest⟩ := List.append_eq_nil_iff.mp written
      exact advances_send (.skipped at_pc) (.inr ⟨rest, last⟩) (by simp [rank, at_pc, SendPc.rank])
  | assign type types ok =>
    have flag := (reach_writeInv clear.reach).unset (Or.inl at_pc)
    have last : ok = false ∨ m.txQueues.total = 1 := by
      simpa only [Yields, at_pc, flag, Bool.false_eq_true, false_or] using may
    refine advances_send (.assigned at_pc) ?_ (by simp [rank, at_pc, SendPc.rank])
    rcases last with failed | one
    · exact Or.inl (by simp [failed])
    · exact Or.inr (Or.inr one)
  | pop type types =>
    obtain ⟨packet, packets, -, queue, -⟩ := (reach_handInv clear.reach).busy type (by rw [at_pc]; rfl)
    refine advances_send (.popped at_pc queue) ?_ (by simp [rank, at_pc, SendPc.rank])
    simp only [Yields, at_pc] at may
    rcases may with flag | flag | one
    · exact Or.inl flag
    · exact Or.inl flag
    · have shrunk := m.txQueues.total_set type packets
      rw [queue, List.length_cons] at shrunk
      have none : (m.txQueues.set type packets).total = 0 := by omega
      exact Or.inr (Or.inr none)
  | _ =>
    rw [at_pc] at passing
    exact absurd rfl passing

theorem Clear.advances {names : List String} {ids : IdManager} (built : IdManager.ofList names = some ids)
    {d : DestructorPc} {m : PacketMuxer} (clear : Clear ids d m) (may : m.transportError = true ∨ m.Yields)
    (working : m.send ≠ .exited) (holding : m.transportError = true ∨ 0 < m.send.holds) : Advances ids m := by
  have control := IdManager.toId_controlString built
  cases at_pc : m.send with
  | entered =>
    exact advances_send (.entered at_pc control) (.inr trivial) (by simp [rank, at_pc, SendPc.rank, PostPc.rank])
  | hello pc =>
    by_cases idle : pc = .idle
    · subst idle
      exact advances_send (.greeted at_pc) (.inr trivial) (by simp [rank, at_pc, SendPc.rank, PostPc.rank])
    · obtain ⟨pc', next, step⟩ := clear.emplaced idle (by simp [at_pc, SendPc.holds])
      have less := step.rank.1
      exact advances_send (.hello at_pc step) (.inr trivial) (by simp [PacketMuxer.rank, at_pc, SendPc.rank, less])
  | lock =>
    obtain ⟨l, lock⟩ := clear.acquire
    have flag : m.transportError = true := holding.resolve_right (by simp [at_pc, SendPc.holds])
    exact advances_send (.locked at_pc lock) (.inl flag) (by simp [rank, at_pc, SendPc.rank])
  | test =>
    cases flag : m.transportError with
    | true =>
      exact advances_send (.stops at_pc flag) (.inl flag) (by simp [rank, at_pc, SendPc.rank])
    | false =>
      have equal : m.numPosted = m.numSent := by simpa [Yields, at_pc, flag] using may
      exact advances_send (.continues at_pc flag) (.inr (.inr equal)) (by simp [rank, at_pc, SendPc.rank])
  | compare =>
    have flag := reach_compare clear.reach at_pc
    have equal : m.numPosted = m.numSent := by simpa [Yields, at_pc, flag] using may
    obtain ⟨l, lock⟩ := clear.release (by simp [at_pc, SendPc.holds])
    have waits : Effect ids m .send { m with txLock := l, send := .waiting false } := .waits at_pc equal lock
    exact ⟨.send, _, trivial, by simp, waits.run_send, .inl ⟨flag, rfl⟩⟩
  | waiting notified =>
    have flag : m.transportError = true := holding.resolve_right (by simp [at_pc, SendPc.holds])
    refine ⟨.wake false, { m with send := .relock false }, trivial, by simp, ?_, .inr ⟨.inl flag, ?_⟩⟩
    · simp only [PacketMuxer.step, at_pc]
    · simp [rank, at_pc, SendPc.rank]
  | relock timeout =>
    have flag : m.transportError = true := holding.resolve_right (by simp [at_pc, SendPc.holds])
    obtain ⟨l, lock⟩ := clear.acquire
    cases timeout with
    | false =>
      exact advances_send (.relocked at_pc lock) (.inl flag) (by simp [rank, at_pc, SendPc.rank])
    | true =>
      refine advances_send (.timedOut at_pc lock control) (.inl flag) ?_
      simp [rank, at_pc, SendPc.rank, PostPc.rank, PostPc.queued]
      omega
  | heartBeat pc =>
    have flag : m.transportError = true := by simpa [Yields, at_pc] using may
    by_cases idle : pc = .idle
    · subst idle
      exact advances_send (.beaten at_pc) (.inl flag) (by simp [rank, at_pc, SendPc.rank, PostPc.rank, PostPc.queued])
    · obtain ⟨pc', next, step⟩ := clear.emplaced idle (by simp [at_pc, SendPc.holds])
      obtain ⟨-, -, -, same, -⟩ := step.sending_side
      obtain ⟨less, keys⟩ := step.rank
      refine advances_send (.heartBeat at_pc step) (.inl (same.trans flag)) ?_
      simp only [PacketMuxer.rank, at_pc, SendPc.rank]
      omega
  | scan =>
    refine ⟨.iterate m.txQueues.keys, { m with send := .visit m.txQueues.keys }, trivial, by simp, ?_, .inr ⟨?_, ?_⟩⟩
    · simp only [PacketMuxer.step, at_pc, List.Perm.refl, if_true]
    · simpa [Yields, at_pc] using may
    · simp [rank, at_pc, SendPc.rank]
  | visit | drain | write | assign | pop => exact clear.advances_pass may (by simp [at_pc, SendPc.pass])
  | unlock =>
    obtain ⟨l, lock⟩ := clear.release (by simp [at_pc, SendPc.holds])
    exact advances_send (.unlocked at_pc lock) (.inr trivial) (by simp [rank, at_pc, SendPc.rank])
  | exited => exact absurd at_pc working
  | aborted type =>
    have flag := ((reach_writeInv clear.reach).calm [] (by rw [at_pc]; rfl)).1
    simp [Yields, at_pc, flag] at may

/-- The send thread gets to where it stops or is outside the lock. -/
theorem Clear.ends {names : List String} {ids : IdManager} (built : IdManager.ofList names = some ids)
    {d : DestructorPc} {m : PacketMuxer} (clear : Clear ids d m) (may : m.transportError = true ∨ m.Yields) :
    (system ids).CanReach StalledPeer
      (fun m => Clear ids d m ∧ (m.send = .exited ∨ m.transportError = false ∧ m.send.holds = 0)) m := by
  refine TransitionSystem.CanReach.of_rank (J := fun m => Clear ids d m ∧ (m.transportError = true ∨ m.Yields)) rank ?_
    ⟨clear, may⟩
  intro m inside
  obtain ⟨clear, may⟩ := inside
  by_cases ended : m.send = .exited ∨ m.transportError = false ∧ m.send.holds = 0
  · exact Or.inl ⟨clear, ended⟩
  · simp only [not_or, not_and] at ended
    obtain ⟨working, holding⟩ := ended
    have held : m.transportError = true ∨ 0 < m.send.holds := by
      cases flag : m.transportError with
      | true => exact Or.inl rfl
      | false => exact Or.inr (Nat.pos_of_ne_zero (holding flag))
    obtain ⟨action, m', permitted, own, run, nearer⟩ := clear.advances built may working held
    refine Or.inr ⟨action, m', permitted, run, ?_⟩
    rcases nearer with out | ⟨still, less⟩
    · exact Or.inl ⟨clear.step permitted own run, Or.inr out⟩
    · exact Or.inr ⟨⟨clear.step permitted own run, still⟩, less⟩

end PacketMuxer

end PacketComms
