import PacketComms.Demuxer.Handshake

namespace PacketComms

/-- A stream in which the complete frame of an invalid packet follows complete frames of packets that can be
received. -/
def HasInvalidFrame (stream : List Byte) : Prop :=
  ∃ (packets : List ComPacket) (data : List Byte), (∀ p ∈ packets, p.Receivable) ∧ data.length < 2 ^ 31 ∧
    ComPacket.code.stream packets ++ ComPacket.frame ⟨IdManager.invalidPacket, data⟩ <+: stream

theorem HasInvalidFrame.mono {stream more : List Byte} (has : HasInvalidFrame stream) (sub : stream <+: more) :
    HasInvalidFrame more := by
  obtain ⟨packets, data, valid, small, whole⟩ := has
  exact ⟨packets, data, valid, small, whole.trans sub⟩

namespace PacketDemuxer

/-- `receivePacket` is about to assert that the packet is valid, and it is not. -/
def Trips (d : PacketDemuxer) : Prop :=
  ∃ caller buffer size, d.receive = .check caller (.payload IdManager.invalidPacket) buffer size ∧
    d.transportError = false

/-- The assertion is what ends the process there. -/
theorem Trips.aborts {ids : IdManager} {d : PacketDemuxer} (trips : d.Trips) :
    ∃ d', step ids d .receive = some d' ∧ d'.receive = .aborted := by
  obtain ⟨caller, buffer, size, at_pc, flag⟩ := trips
  refine ⟨{ d with receive := .aborted }, ?_, rfl⟩
  simp [step, receiveStep, at_pc, flag, fieldRead]

theorem ReadInv.hasInvalidFrame {d : PacketDemuxer} (inv : ReadInv d) (trips : d.Trips) :
    HasInvalidFrame d.arrived := by
  obtain ⟨caller, buffer, size, at_pc, flag⟩ := trips
  obtain ⟨small, whole⟩ := inv.frame at_pc flag
  refine ⟨d.received, buffer, inv.valid, small, ?_⟩
  rw [PrefixCode.stream_append] at whole
  exact ⟨d.input, by simpa [ComPacket.code] using whole⟩

/-- Packets whose frames have arrived can be received one after another, whatever becomes of them. -/
theorem receivePackets_run (ids : IdManager) {packets : List ComPacket} (valid : ∀ p ∈ packets, p.Receivable)
    {d : PacketDemuxer} {more : List Byte} (at_pc : d.receive = .ready .receiveLoop) (flag : d.transportError = false)
    (input : d.input = ComPacket.code.stream packets ++ more) :
    ∃ actions d', (∀ action ∈ actions, Receiving action) ∧ (system ids).run d actions = some d' ∧
      d'.receive = .ready .receiveLoop ∧ d'.transportError = false ∧ d'.input = more := by
  induction packets generalizing d with
  | nil => exact ⟨[], d, by simp, rfl, at_pc, flag, input⟩
  | cons p packets ih =>
    obtain ⟨proper, small⟩ := valid p List.mem_cons_self
    rw [PrefixCode.stream_cons, List.append_assoc] at input
    have received := receivePacket_run ids at_pc flag input proper small
    let taken : PacketDemuxer := { d with
      waits := d.waits ++ [true]
      input := ComPacket.code.stream packets ++ more
      received := d.received ++ [p]
      receive := .dispatch p }
    have passed : (taken.dispatchStep p).receive = .loop ∧ (taken.dispatchStep p).transportError = false ∧
        (taken.dispatchStep p).input = ComPacket.code.stream packets ++ more := by
      unfold dispatchStep
      split <;> exact ⟨rfl, flag, rfl⟩
    obtain ⟨loop, calm, rest⟩ := passed
    have dispatched : (system ids).step taken .receive = some (taken.dispatchStep p) := rfl
    have continued : (system ids).step (taken.dispatchStep p) .receive =
        some { taken.dispatchStep p with receive := .ready .receiveLoop } := by
      simp [system, step, receiveStep, loop, calm]
    obtain ⟨actions, d', receiving, run, after⟩ :=
      ih (fun q member => valid q (List.mem_cons_of_mem p member))
        (d := { taken.dispatchStep p with receive := .ready .receiveLoop }) rfl calm rest
    refine ⟨frameActions p ++ (.receive :: .receive :: actions), d', ?_, TransitionSystem.run_trans received ?_, after⟩
    · intro action member
      simp only [List.mem_append, List.mem_cons] at member
      rcases member with framed | rfl | rfl | later
      · exact frameActions_receiving p action framed
      · exact Or.inl rfl
      · exact Or.inl rfl
      · exact receiving action later
    · rw [TransitionSystem.run, dispatched, Option.bind_some, TransitionSystem.run, continued]
      exact run

theorem reach_trips (ids : IdManager) {stream : List Byte} (has : HasInvalidFrame stream) :
    ∃ d, (system ids).ReachUnder (FromPeer stream) d ∧ d.Trips := by
  obtain ⟨packets, data, valid, small, sub⟩ := has
  let bytes := ComPacket.code.stream packets ++ ComPacket.frame ⟨IdManager.invalidPacket, data⟩
  let waited : PacketDemuxer := { arrived := bytes, input := bytes, waits := [false], receive := .ready .receiveLoop }
  -- the first wait times out, so no packet is taken for the handshake
  have waits : (system ids).run { arrived := bytes, input := bytes } [.ready false, .receive] = some waited := rfl
  have reach : (system ids).ReachUnder (FromPeer stream) waited := by
    refine (reach_arrives ids sub).run (fun action member d => ?_) waits
    simp only [List.mem_cons, List.not_mem_nil, or_false] at member
    rcases member with rfl | rfl <;> trivial
  obtain ⟨actions, d, receiving, run, at_pc, flag, input⟩ := receivePackets_run ids valid (d := waited) rfl rfl rfl
  have there := reach.run (fun action member d => (receiving action member).fromPeer stream d) run
  have read := payload_run ids (p := ⟨IdManager.invalidPacket, data⟩) at_pc flag
    (by rw [input, List.append_nil]) small
  exact ⟨_, there.run (fun action member d => (payloadActions_receiving _ action member).fromPeer stream d) read,
    .receiveLoop, data, 0, rfl, flag⟩

/-- Over all runs against a peer that sends this stream or a part of it: no call of `receivePacket` fails its assertion
exactly if the stream has no complete frame of type 0 behind frames that can be received. -/
theorem assertion_iff (ids : IdManager) (stream : List Byte) :
    (∀ d, (system ids).ReachUnder (FromPeer stream) d → ¬ d.Trips) ↔ ¬ HasInvalidFrame stream := by
  constructor
  · intro holds has
    obtain ⟨d, reach, trips⟩ := reach_trips ids has
    exact holds d reach trips
  · intro none d reach trips
    exact none (((reach_readInv reach).hasInvalidFrame trips).mono (reach_arrived (fun _ _ met => met) reach))

/-- Eight zeros are the first frame. -/
theorem assertion_fails : ¬ ∀ (ids : IdManager) (stream : List Byte) (d : PacketDemuxer),
    (system ids).ReachUnder (FromPeer stream) d → ¬ d.Trips := by
  intro always
  have zeros : ([0, 0, 0, 0, 0, 0, 0, 0] : List Byte) = ComPacket.frame ⟨IdManager.invalidPacket, []⟩ ++ [] := by decide
  have read := payload_run IdManager.reserved (p := ⟨IdManager.invalidPacket, []⟩)
    (d := { arrived := [0, 0, 0, 0, 0, 0, 0, 0], input := [0, 0, 0, 0, 0, 0, 0, 0] }) rfl rfl zeros (by decide)
  have reach := (reach_arrives IdManager.reserved List.prefix_rfl).run
    (fun action member d => (payloadActions_receiving _ action member).fromPeer [0, 0, 0, 0, 0, 0, 0, 0] d) read
  exact always IdManager.reserved _ _ reach ⟨.receiveHelloMessage, [], 0, rfl, rfl⟩

end PacketDemuxer

end PacketComms
