import PacketComms.Demuxer.Handshake

namespace PacketComms

namespace PacketDemuxer

/-- `receiveHelloMessage` does what it is for: none of its steps ends the process, the message of the packet is read
only where there is one, and the error is noted exactly for a packet that is no Hello message, if it was not before. -/
structure Checks (ids : IdManager) (d : PacketDemuxer) : Prop where
  lives : d.receive.Greeting → ∀ action d', step ids d action = some d' → d'.receive ≠ .aborted
  within : ∀ packet, d.receive = .greet packet → packet.type = IdManager.controlPacket → packet.data ≠ []
  decides : ∀ packet, d.receive = .greet packet → ∃ d', step ids d .receive = some d' ∧ d'.receive = .loop ∧
    (d'.transportError = true ↔ d.transportError = true ∨ ¬ packet.IsHello)

theorem greetStep_decides (d : PacketDemuxer) {packet : ComPacket}
    (within : packet.type = IdManager.controlPacket → packet.data ≠ []) : (d.greetStep packet).receive = .loop ∧
      ((d.greetStep packet).transportError = true ↔ d.transportError = true ∨ ¬ packet.IsHello) := by
  obtain ⟨type, data⟩ := packet
  by_cases control : type = IdManager.controlPacket
  · cases data with
    | nil => exact absurd rfl (within control)
    | cons msg data =>
      by_cases hello : msg = ControlMessage.hello.value
      · simp [greetStep, control, hello, ComPacket.IsHello]
      · simp [greetStep, control, hello, ComPacket.IsHello]
  · simp [greetStep, control, ComPacket.IsHello]

/-- Over all runs against a peer that sends this stream or a part of it: `receiveHelloMessage` does what it is for
exactly if the first frame of the stream is not fatal. -/
theorem hello_check_iff (ids : IdManager) (stream : List Byte) :
    (∀ d, (system ids).ReachUnder (FromPeer stream) d → d.Checks ids) ↔ ¬ FatalFirst stream := by
  constructor
  · intro checks fatal
    rcases fatal_ends ids fatal true with ⟨d, d', reach, run, aborted, -, -, greeting⟩ | ⟨late, -⟩
    · exact (checks d reach).lives (greeting rfl) _ d' run aborted
    · cases late
  · intro other d reach
    have read := reach_readInv reach
    have handled := reach_handledInv reach
    have arrived := reach_arrived (fun _ _ met => met) reach
    have within : ∀ packet, d.receive = .greet packet → packet.type = IdManager.controlPacket → packet.data ≠ [] := by
      rintro ⟨type, data⟩ at_pc rfl rfl
      have received := handled.received_eq (by rw [at_pc]; trivial)
      have first := read.beginsWith arrived (p := ⟨IdManager.controlPacket, []⟩) (by rw [received, at_pc]; rfl)
      exact other (Or.inr (Or.inr first.2.2))
    refine ⟨fun greeting action d' run aborted => ?_, within, fun packet at_pc => ?_⟩
    · have alive : d.receive ≠ .aborted := fun dead => by rw [dead] at greeting; cases greeting
      exact other (((step_effect run).fatalFirst read alive (handled.received_eq greeting) aborted).mono arrived)
    · exact ⟨d.greetStep packet, by simp [step, receiveStep, at_pc], d.greetStep_decides (within packet at_pc)⟩

/-- An empty control packet comes first: its message is read where there is none. -/
theorem hello_check_fails : ¬ ∀ (ids : IdManager) (stream : List Byte) (d : PacketDemuxer),
    (system ids).ReachUnder (FromPeer stream) d → d.Checks ids := by
  intro always
  have empty : ([0, 0, 0, 1, 0, 0, 0, 0] : List Byte) = ComPacket.frame ⟨IdManager.controlPacket, []⟩ ++ [] := by decide
  have received := receivePacket_run IdManager.reserved (p := ⟨IdManager.controlPacket, []⟩)
    (d := { arrived := [0, 0, 0, 1, 0, 0, 0, 0], input := [0, 0, 0, 1, 0, 0, 0, 0] }) rfl rfl empty (by decide)
      (by decide)
  have reach := (reach_arrives IdManager.reserved List.prefix_rfl).run
    (frameActions_fromPeer [0, 0, 0, 1, 0, 0, 0, 0] _) received
  exact (always IdManager.reserved _ _ reach).within ⟨IdManager.controlPacket, []⟩ rfl rfl rfl

end PacketDemuxer

end PacketComms
