import PacketComms.Muxer.Enabled
import PacketComms.Muxer.Lock

namespace PacketComms

/-- The arguments of a constructor behind the construction of the packet: the vector that was
moved from has been swapped with an empty one. -/
def PacketArgs.left : PacketArgs → PacketArgs
  | .moved _ => .moved []
  | args => args

/-- What a call of `emplacePacket` leaves: the muxer, the arguments as the caller finds them, and
whether it has thrown. -/
structure PostedCall where
  muxer : PacketMuxer
  args : PacketArgs
  thrown : Bool

/-- Whether the vector accepts the size does not depend on the type. -/
theorem ComPacket.make_none {type : PacketType} {args : PacketArgs} (failed : ComPacket.make type args = none)
    (type' : PacketType) : ComPacket.make type' args = none := by
  cases args <;> simp_all [ComPacket.make]

namespace PacketMuxer

/-- `emplacePacket`, called by a thread that nobody disturbs. `none`: another thread has the lock.
The guard gives it back also when the packet's constructor has thrown, or its allocation. -/
def emplacePacket (ids : IdManager) (m : PacketMuxer) (t : MuxerThread) (name : String) (args : PacketArgs)
    (alloc : Bool) : Option PostedCall :=
  match ids.toId name with
  | none => some ⟨m, args, true⟩
  | some type =>
    (m.txLock.acquire t).bind (fun guard =>
      let m := { m with txLock := guard, txQueues := m.txQueues.touch type }
      match (if alloc then ComPacket.make type args else none) with
      | none => (m.txLock.release t).map (fun l => ⟨{ m with txLock := l }, args, true⟩)
      | some packet =>
        let sptr : SharedPacket := ⟨m.nextAddr, packet⟩
        let m := signalPacketPosted { m with
          txQueues := m.txQueues.set type (m.txQueues.get type ++ [sptr])
          nextAddr := m.nextAddr + 1
          log := m.log ++ [.posted name sptr] }
        (m.txLock.release t).map (fun l => ⟨{ m with txLock := l }, args.left, false⟩))

/-- A call that throws leaves at most an empty queue for its type. -/
theorem emplacePacket_thrown {ids : IdManager} {m : PacketMuxer} {t : MuxerThread} {name : String} {args : PacketArgs}
    {alloc : Bool} {call : PostedCall} (run : emplacePacket ids m t name args alloc = some call)
    (thrown : call.thrown = true) : call.args = args ∧ (ids.toId name = none ∧ call.muxer = m ∨
      ∃ type guard, ids.toId name = some type ∧ m.txLock.acquire t = some guard ∧
        (if alloc then ComPacket.make type args else none) = none ∧
        call.muxer = { m with txQueues := m.txQueues.touch type }) := by
  unfold emplacePacket at run
  split at run
  · rename_i unknown
    cases Option.some.inj run
    exact ⟨rfl, Or.inl ⟨unknown, rfl⟩⟩
  · rename_i type known
    obtain ⟨guard, lock, rest⟩ := Option.bind_eq_some_iff.mp run
    have back := RecursiveMutex.release_acquire lock
    dsimp only at rest
    split at rest
    · rename_i failed
      rw [back, Option.map_some] at rest
      cases Option.some.inj rest
      exact ⟨rfl, Or.inr ⟨type, guard, known, lock, failed, rfl⟩⟩
    · obtain ⟨l, -, rfl⟩ := Option.map_eq_some_iff.mp rest
      cases thrown

/-- A call throws for one of three reasons: its name has no id, the packet could not be allocated, or
the vector did not accept the size. -/
theorem emplacePacket_thrown_iff {ids : IdManager} {m : PacketMuxer} {t : MuxerThread} {name : String}
    {args : PacketArgs} {alloc : Bool} {call : PostedCall} (run : emplacePacket ids m t name args alloc = some call) :
    call.thrown = true ↔ ids.toId name = none ∨ alloc = false ∨ ∃ type, ComPacket.make type args = none := by
  unfold emplacePacket at run
  split at run
  · rename_i unknown
    cases Option.some.inj run
    exact iff_of_true rfl (Or.inl unknown)
  · rename_i type known
    obtain ⟨guard, -, rest⟩ := Option.bind_eq_some_iff.mp run
    dsimp only at rest
    split at rest
    · rename_i failed
      obtain ⟨l, -, rfl⟩ := Option.map_eq_some_iff.mp rest
      cases alloc with
      | false => exact iff_of_true rfl (Or.inr (Or.inl rfl))
      | true => exact iff_of_true rfl (Or.inr (Or.inr ⟨type, failed⟩))
    · rename_i packet built
      obtain ⟨l, -, rfl⟩ := Option.map_eq_some_iff.mp rest
      refine iff_of_false nofun ?_
      rintro (unknown | unallocated | ⟨type', failed⟩)
      · cases known.symm.trans unknown
      · simp [unallocated] at built
      · have rejected := ComPacket.make_none failed type
        simp [rejected] at built

/-- A call that puts its packet into the queue, step by step. -/
theorem emplacePacket_run {ids : IdManager} {m : PacketMuxer} {i : Nat} {name : String} {args : PacketArgs}
    {alloc : Bool} {call : PostedCall} (alive : ∀ type, m.send ≠ .aborted type) (idle : m.users i = .idle)
    (run : emplacePacket ids m (.user i) name args alloc = some call) (posted : call.thrown = false) :
    (system ids).run m [.post i name args, .user i alloc, .user i alloc, .user i alloc, .user i alloc] =
      some call.muxer := by
  unfold emplacePacket at run
  split at run
  · cases Option.some.inj run
    cases posted
  · rename_i type known
    obtain ⟨guard, lock, rest⟩ := Option.bind_eq_some_iff.mp run
    have back := RecursiveMutex.release_acquire lock
    dsimp only at rest
    split at rest
    · obtain ⟨l, -, rfl⟩ := Option.map_eq_some_iff.mp rest
      cases posted
    · rename_i packet built
      obtain ⟨rfl, built⟩ : alloc = true ∧ ComPacket.make type args = some packet := by
        cases alloc with
        | false => cases built
        | true => exact ⟨rfl, built⟩
      obtain ⟨l, release, rfl⟩ := Option.map_eq_some_iff.mp rest
      obtain ⟨queued, same⟩ : ∃ queued : PacketMuxer, queued = { m with
          txLock := guard
          txQueues := m.txQueues.set type (m.txQueues.get type ++ [⟨m.nextAddr, packet⟩])
          nextAddr := m.nextAddr + 1
          log := m.log ++ [.posted name ⟨m.nextAddr, packet⟩] } := ⟨_, rfl⟩
      simp only [KeyedLists.set_touch, KeyedLists.get_touch, ← same] at release ⊢
      have locks : Emplaced m (.user i) true (.locking name type args) (.emplacing name type args)
          { m with txLock := guard } := .locked lock
      have emplaces : Emplaced { m with txLock := guard } (.user i) true (.emplacing name type args) .signalling
          queued := same ▸ .emplaced rfl built
      have signals : Emplaced queued (.user i) true .signalling .unlocking queued.signalPacketPosted := .signalled
      have unlocks : Emplaced queued.signalPacketPosted (.user i) true .unlocking .idle
          { queued.signalPacketPosted with txLock := l } := .unlocked release
      have alive' : ∀ type, queued.send ≠ .aborted type := by rw [same]; exact alive
      have alive'' : ∀ type, queued.signalPacketPosted.send ≠ .aborted type := by
        intro type dead
        exact alive' type (signals.send.before dead nofun)
      have called : step ids m (.post i name args) = some _ := step_post alive name args idle
      have locked : step ids _ _ = some _ := step_own alive locks m.users
      have emplaced : step ids _ _ = some _ := step_own (m := { m with txLock := guard }) alive emplaces m.users
      have signalled : step ids _ _ = some _ := step_own alive' signals m.users
      have unlocked : step ids _ _ = some _ := step_own alive'' unlocks m.users
      have users : m.users = queued.signalPacketPosted.users := by
        simp [signalPacketPosted, same]
      rw [known, Option.elim_some] at called
      simp only [TransitionSystem.run, system, called, locked, emplaced, signalled, unlocked, Option.bind_some]
      rw [← idle, Function.update_eq_self, users]

end PacketMuxer

end PacketComms
