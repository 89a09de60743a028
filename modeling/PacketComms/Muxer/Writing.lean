import PacketComms.Muxer.Handing

namespace PacketComms

/-- The bytes of the packet in hand that the transport has not accepted. `none`: no
packet is in hand, or `m_transportError` has already been assigned for it. -/
def SendPc.unwritten : SendPc → Option (List Byte)
  | .write _ _ fields _ => some fields.flatten
  | .assign .. | .aborted _ => some []
  | _ => none

theorem SendPc.unwritten_holds {pc : SendPc} {bytes : List Byte} (writing : pc.unwritten = some bytes) :
    pc.holds = 1 := by
  cases pc <;> simp_all [SendPc.unwritten, SendPc.holds]

theorem SendPc.unwritten_sending {pc : SendPc} {bytes : List Byte} (writing : pc.unwritten = some bytes) :
    ∃ type, pc.sending = some type := by
  cases pc <;> simp_all [SendPc.unwritten, SendPc.sending]

namespace PacketMuxer

@[simp] theorem notify_unwritten (m : PacketMuxer) : m.notify.send.unwritten = m.send.unwritten :=
  m.notify_send.congr SendPc.unwritten (fun _ => rfl)

@[simp] theorem notify_aborted (m : PacketMuxer) (type : PacketType) :
    m.notify.send = .aborted type ↔ m.send = .aborted type :=
  (m.notify_send.congr (· = .aborted type) (by simp)).to_iff

/-- What `emplacePacket` leaves alone on the sending side. -/
theorem Emplaced.sending_side {m m' : PacketMuxer} {t : MuxerThread} {alloc : Bool} {pc pc' : PostPc}
    (step : Emplaced m t alloc pc pc' m') : m'.send.unwritten = m.send.unwritten ∧ hands m'.log = hands m.log ∧
      m'.written = m.written ∧ m'.transportError = m.transportError ∧ m'.wire = m.wire ∧
      (∀ type, m'.send = .aborted type ↔ m.send = .aborted type) := by
  cases step with
  | signalled =>
    exact ⟨by simp [signalPacketPosted], by simp [signalPacketPosted], by simp [signalPacketPosted],
      by simp [signalPacketPosted], by simp [signalPacketPosted], fun type => by simp [signalPacketPosted]⟩
  | emplaced => exact ⟨rfl, hands_posted .., rfl, rfl, rfl, fun _ => Iff.rfl⟩
  | locked | threw | unlocked => exact ⟨rfl, rfl, rfl, rfl, rfl, fun _ => Iff.rfl⟩

/-- What has been written completely, against what was handed to `sendPacket`: while no
error is noted only the packet in hand is missing, and after an error nothing is added. -/
structure WriteInv (m : PacketMuxer) : Prop where
  calm : ∀ bytes, m.send.unwritten = some bytes → m.transportError = false ∧ m.written = (hands m.log).dropLast
  even : m.send.unwritten = none → m.transportError = false → m.written = hands m.log
  sub : m.written <+: hands m.log

/-- A step that neither hands a packet over nor finishes one, and notes an error only
between packets. -/
theorem WriteInv.quiet {m m' : PacketMuxer} (inv : WriteInv m)
    (unwritten : m'.send.unwritten.isSome = m.send.unwritten.isSome) (log : hands m'.log = hands m.log)
    (written : m'.written = m.written)
    (flag : m'.transportError = m.transportError ∨ m.send.unwritten = none ∧ m'.transportError = true) :
    WriteInv m' := by
  refine ⟨?_, ?_, by rw [log, written]; exact inv.sub⟩
  · intro bytes writing
    rw [writing] at unwritten
    obtain ⟨before, was⟩ := Option.isSome_iff_exists.mp unwritten.symm
    rcases flag with same | ⟨idle, -⟩
    · rw [same, written, log]
      exact inv.calm before was
    · rw [was] at idle
      cases idle
  · intro idle calm
    rw [idle] at unwritten
    have was : m.send.unwritten = none := Option.isNone_iff_eq_none.mp (by simpa using unwritten.symm)
    rcases flag with same | ⟨-, noted⟩
    · rw [written, log]
      exact inv.even was (same ▸ calm)
    · rw [noted] at calm
      cases calm

theorem Effect.writeInv {ids : IdManager} {m m' : PacketMuxer} {action : MuxerAction} (lock : LockInv m)
    (hand : HandInv m) (inv : WriteInv m) (effect : Effect ids m action m') : WriteInv m' := by
  cases effect with
  | threw => exact inv
  | called | destroy | destroyLocked | destroyUnlocked | destroyJoined => exact inv.quiet rfl rfl rfl (.inl rfl)
  | user step =>
    obtain ⟨unwritten, log, written, flag, -⟩ := step.sending_side
    exact inv.quiet (congrArg _ unwritten) log written (.inl flag)
  | hello at_pc step | heartBeat at_pc step =>
    obtain ⟨-, log, written, flag, -⟩ := step.sending_side
    exact inv.quiet (by rw [at_pc]; rfl) log written (.inl flag)
  | destroyStored at_pc =>
    have outside : m.send.unwritten = none := by
      by_contra writing
      obtain ⟨bytes, writing⟩ := Option.ne_none_iff_exists'.mp writing
      have free := lock.exclusive (t := .destructor) (u := .send) (by simp [holds, at_pc, DestructorPc.holds]) nofun
      rw [show m.holds .send = m.send.holds from rfl, SendPc.unwritten_holds writing] at free
      omega
    exact inv.quiet (by simp) (by simp) (by simp) (.inr ⟨outside, by simp⟩)
  | handed at_pc flag | asserted at_pc flag =>
    have even := inv.even (by rw [at_pc]; rfl) flag
    refine ⟨fun _ _ => ⟨flag, by simp [even]⟩, fun idle => ?_, by simp [even]⟩
    cases idle
  | @assigned type types ok at_pc =>
    obtain ⟨packet, packets, before, queue, log, -, -⟩ := hand.busy type (by rw [at_pc]; rfl)
    obtain ⟨-, written⟩ := inv.calm [] (by rw [at_pc]; rfl)
    cases ok with
    | true =>
      exact ⟨by simp [SendPc.unwritten], fun _ _ => by simp [written, log, queue], by simp [written, log, queue]⟩
    | false => exact ⟨by simp [SendPc.unwritten], (fun _ flag => by cases flag), inv.sub⟩
  | popped at_pc => exact inv.quiet (by rw [at_pc]; rfl) (hands_popped ..) rfl (.inl rfl)
  | entered at_pc | greeted at_pc | locked at_pc | continues at_pc | stops at_pc | waits at_pc | busy at_pc
  | woken at_pc | relocked at_pc | timedOut at_pc | beaten at_pc | iterates at_pc | passed at_pc | visits at_pc
  | drained at_pc | skipped at_pc | failed at_pc | accepted at_pc | interrupted at_pc | finished at_pc
  | unlocked at_pc => exact inv.quiet (by rw [at_pc]; rfl) rfl rfl (.inl rfl)

theorem reach_writeInv {ids : IdManager} {C : PacketMuxer → MuxerAction → Prop} {m : PacketMuxer}
    (reach : (system ids).ReachUnder C m) : WriteInv m :=
  reach.invariant ⟨nofun, fun _ _ => rfl, List.prefix_rfl⟩
    (fun before inv _ run => (step_effect run).writeInv (reach_lockInv before) (reach_handInv before) inv)

end PacketMuxer

end PacketComms
