import PacketComms.Muxer.Sent
import PacketComms.Muxer.StopFlag

namespace PacketComms.PacketMuxer

/-- No write fails. -/
def NoWriteError (_ : PacketMuxer) : MuxerAction → Prop
  | .write .error => False
  | _ => True

/-- The packets handed to `sendPacket`, without their addresses. -/
def sent (m : PacketMuxer) : List ComPacket := (hands m.log).map (·.packet)

/-- The bytes on the wire are the frames of the packets handed over, up to what of the last
one is still to be written. -/
structure WireInv (m : PacketMuxer) : Prop where
  whole : (∀ type, m.send ≠ .aborted type) →
    m.wire ++ m.send.unwritten.getD [] = ComPacket.code.stream m.sent
  sub : m.wire <+: ComPacket.code.stream m.sent

/-- What the transport has accepted stays accepted. -/
theorem Effect.wire_grows {ids : IdManager} {m m' : PacketMuxer} {action : MuxerAction}
    (effect : Effect ids m action m') : m.wire <+: m'.wire := by
  cases effect with
  | user step | hello _ step | heartBeat _ step =>
    obtain ⟨-, -, -, -, wire, -⟩ := step.sending_side
    exact wire ▸ List.prefix_rfl
  | accepted | interrupted => exact List.prefix_append _ _
  | destroyStored => simp
  | _ => exact List.prefix_rfl

/-- A step that writes nothing. -/
theorem WireInv.quiet {m m' : PacketMuxer} (inv : WireInv m) (wire : m'.wire = m.wire)
    (log : hands m'.log = hands m.log) (unwritten : m'.send.unwritten.getD [] = m.send.unwritten.getD [])
    (aborted : ∀ type, m.send = .aborted type → ∃ type, m'.send = .aborted type) : WireInv m' := by
  refine ⟨?_, by rw [sent, log, wire]; exact inv.sub⟩
  intro alive
  rw [sent, log, wire, unwritten]
  refine inv.whole (fun type dead => ?_)
  obtain ⟨type', dead'⟩ := aborted type dead
  exact alive type' dead'

theorem Effect.wireInv {ids : IdManager} {m m' : PacketMuxer} {action : MuxerAction} (write : WriteInv m)
    (inv : WireInv m) (met : NoWriteError m action) (effect : Effect ids m action m') : WireInv m' := by
  cases effect with
  | threw => exact inv
  | called | destroy | destroyLocked | destroyUnlocked | destroyJoined =>
    exact inv.quiet rfl rfl rfl (fun type dead => ⟨type, dead⟩)
  | user step =>
    obtain ⟨unwritten, log, -, -, wire, aborted⟩ := step.sending_side
    exact inv.quiet wire log (congrArg (·.getD []) unwritten) (fun type dead => ⟨type, (aborted type).mpr dead⟩)
  | hello at_pc step | heartBeat at_pc step =>
    obtain ⟨-, log, -, -, wire, -⟩ := step.sending_side
    exact inv.quiet wire log (by rw [at_pc]; rfl) (by simp [at_pc])
  | destroyStored => exact inv.quiet (by simp) (by simp) (by simp) (fun type dead => ⟨type, by simpa using dead⟩)
  | failed => exact absurd met id
  | interrupted at_pc _ flag =>
    rw [(write.calm _ (by rw [at_pc]; rfl)).1] at flag
    cases flag
  | @handed type types packet packets at_pc =>
    have whole := inv.whole (by simp [at_pc])
    rw [at_pc] at whole
    have before : m.wire = ComPacket.code.stream m.sent := by simpa [SendPc.unwritten] using whole
    have frame : ComPacket.code.encode packet.packet = packet.packet.fields.flatten := rfl
    refine ⟨fun _ => ?_, ?_⟩
    · simp [sent, SendPc.unwritten, frame, before]
    · simp [sent, before]
  | @asserted type types packet packets at_pc =>
    refine ⟨fun alive => absurd rfl (alive type), ?_⟩
    simp only [sent, hands_handed, List.map_append, PrefixCode.stream_append]
    exact inv.sub.trans (List.prefix_append _ _)
  | @accepted type types buffer fields ok n at_pc =>
    have whole := inv.whole (by simp [at_pc])
    rw [at_pc] at whole
    have split : m.wire ++ buffer.take n ++ (buffer.drop n ++ fields.flatten) = ComPacket.code.stream m.sent := by
      calc m.wire ++ buffer.take n ++ (buffer.drop n ++ fields.flatten)
          = m.wire ++ ((buffer.take n ++ buffer.drop n) ++ fields.flatten) := by simp only [List.append_assoc]
        _ = m.wire ++ (buffer ++ fields.flatten) := by rw [List.take_append_drop]
        _ = ComPacket.code.stream m.sent := whole
    exact ⟨fun _ => split, ⟨_, split⟩⟩
  | popped at_pc =>
    exact inv.quiet rfl (hands_popped ..) (by rw [at_pc]; rfl) (by simp [at_pc])
  | entered at_pc | greeted at_pc | locked at_pc | continues at_pc | stops at_pc | waits at_pc | busy at_pc
  | woken at_pc | relocked at_pc | timedOut at_pc | beaten at_pc | iterates at_pc | passed at_pc | visits at_pc
  | drained at_pc | skipped at_pc | finished at_pc | assigned at_pc | unlocked at_pc =>
    exact inv.quiet rfl rfl (by rw [at_pc]; rfl) (by simp [at_pc])

theorem reach_wireInv {ids : IdManager} {C : PacketMuxer → MuxerAction → Prop}
    (calm : ∀ m action, C m action → NoWriteError m action) {m : PacketMuxer}
    (reach : (system ids).ReachUnder C m) : WireInv m := by
  refine reach.invariant ⟨fun _ => rfl, List.nil_prefix⟩ ?_
  exact fun before inv met run => (step_effect run).wireInv (reach_writeInv before) inv (calm _ _ met)

/-- Nothing has gone wrong with the packet in hand, and the flag comes from the destructor. -/
structure CalmInv (m : PacketMuxer) : Prop where
  intact : ∀ ok, m.send.intact = some ok → ok = true
  flag : m.transportError = true → m.destructor ≠ .notCalled

/-- A step that has to do with neither. -/
theorem CalmInv.quiet {m m' : PacketMuxer} (inv : CalmInv m)
    (intact : ∀ ok, m'.send.intact = some ok → m.send.intact = some ok ∨ ok = true)
    (flag : m'.transportError = m.transportError) (destructor : m'.destructor = m.destructor) : CalmInv m' := by
  refine ⟨fun ok hand => ?_, by rw [flag, destructor]; exact inv.flag⟩
  rcases intact ok hand with before | fine
  · exact inv.intact ok before
  · exact fine

theorem Effect.calmInv {ids : IdManager} {m m' : PacketMuxer} {action : MuxerAction} (write : WriteInv m)
    (inv : CalmInv m) (met : NoWriteError m action) (effect : Effect ids m action m') : CalmInv m' := by
  cases effect with
  | threw => exact inv
  | called => exact inv.quiet (fun _ => Or.inl) rfl rfl
  | user step =>
    obtain ⟨-, -, -, flag, -⟩ := step.sending_side
    obtain ⟨-, -, destructor, -⟩ := step.lock
    exact inv.quiet (fun ok hand => Or.inl (step.intact ▸ hand)) flag destructor
  | hello _ step | heartBeat _ step =>
    obtain ⟨-, -, -, flag, -⟩ := step.sending_side
    obtain ⟨-, -, destructor, -⟩ := step.lock
    exact inv.quiet (by simp [SendPc.intact]) flag destructor
  | destroy | destroyLocked | destroyUnlocked | destroyJoined => exact ⟨inv.intact, fun _ => by simp⟩
  | destroyStored => exact ⟨by simpa using inv.intact, fun _ => by simp⟩
  | failed => exact absurd met id
  | interrupted at_pc _ flag =>
    rw [write.unset (Or.inr ⟨_, at_pc⟩)] at flag
    cases flag
  | assigned at_pc =>
    obtain rfl := inv.intact _ (by rw [at_pc]; rfl)
    exact ⟨by simp [SendPc.intact], by simp⟩
  | handed => exact inv.quiet (fun ok hand => Or.inr (by simpa [SendPc.intact] using hand.symm)) rfl rfl
  | skipped at_pc | accepted at_pc | finished at_pc =>
    exact inv.quiet (fun ok hand => Or.inl (by rw [at_pc]; exact hand)) rfl rfl
  | _ => exact inv.quiet (by simp [SendPc.intact]) rfl rfl

theorem reach_calmInv {ids : IdManager} {C : PacketMuxer → MuxerAction → Prop}
    (calm : ∀ m action, C m action → NoWriteError m action) {m : PacketMuxer}
    (reach : (system ids).ReachUnder C m) : CalmInv m := by
  refine reach.invariant ⟨by simp [system, SendPc.intact], by simp [system]⟩ ?_
  exact fun before inv met run => (step_effect run).calmInv (reach_writeInv before) inv (calm _ _ met)

end PacketComms.PacketMuxer
