import PacketComms.Demuxer.Handshake

namespace PacketComms.PacketDemuxer

/-- The peer sends this stream and hangs up: no read fails, after the last byte every wait is
successful, and nobody destroys the demuxer. -/
def HangsUp (stream : List Byte) (d : PacketDemuxer) (action : DemuxerAction) : Prop :=
  FromPeer stream d action ∧
  match action with
  | .ready answer => d.arrived = stream → answer = true
  | .read .error | .destroy => False
  | _ => True

theorem Receiving.hangsUp {action : DemuxerAction} (receiving : Receiving action) (stream : List Byte)
    (d : PacketDemuxer) : HangsUp stream d action := by
  rcases receiving with rfl | rfl | ⟨n, rfl⟩
  · exact ⟨trivial, trivial⟩
  · exact ⟨trivial, fun _ => rfl⟩
  · exact ⟨trivial, trivial⟩

/-- What a peer sends that keeps to the protocol and hangs up after `cut` bytes. -/
structure Cut (frames : List ComPacket) (cut : Nat) (stream : List Byte) : Prop where
  valid : ∀ p ∈ frames, p.type ≠ IdManager.invalidPacket ∧ p.data.length < 2 ^ 31
  hello : ∀ p, frames.head? = some p → p.frame.length ≤ cut → p.IsHello
  taken : stream = (ComPacket.code.stream frames).take cut

theorem Cut.sub {frames : List ComPacket} {cut : Nat} {stream : List Byte} (peer : Cut frames cut stream) :
    stream <+: ComPacket.code.stream frames := by
  rw [peer.taken]
  exact List.take_prefix _ _

/-- Packets whose frames have arrived are packets of the peer. -/
theorem Cut.received {frames : List ComPacket} {cut : Nat} {stream : List Byte} (peer : Cut frames cut stream)
    (packets : List ComPacket) (small : ∀ p ∈ packets, p.data.length < 2 ^ 32)
    (arrived : ComPacket.code.stream packets <+: stream) : packets <+: frames :=
  ComPacket.code.prefix_of_stream_prefix small (fun p member => by have := (peer.valid p member).2; change _ < _; omega)
    (arrived.trans peer.sub)

/-- The first packet that can be received is the Hello message. -/
theorem Cut.begins {frames : List ComPacket} {cut : Nat} {stream : List Byte} (peer : Cut frames cut stream)
    {p : ComPacket} (begins : BeginsWith stream p) : p.IsHello := by
  obtain ⟨-, small, start⟩ := begins
  have first := peer.received [p] (by simpa using by omega) (by simpa [ComPacket.code] using start)
  obtain ⟨rest, rfl⟩ := first
  refine peer.hello p rfl ?_
  have bound := start.length_le
  rw [peer.taken, List.length_take] at bound
  omega

/-- The thread runs on, and no error is noted. -/
structure Spins (d : PacketDemuxer) : Prop where
  flag : d.transportError = false
  stays : d.receive ≠ .exited
  alive : d.receive ≠ .aborted

theorem Effect.spins {ids : IdManager} {frames : List ComPacket} {cut : Nat} {stream : List Byte}
    (peer : Cut frames cut stream) {d d' : PacketDemuxer} {action : DemuxerAction}
    (arrived : d.arrived <+: stream) (read : ReadInv d) (handled : HandledInv d) (met : HangsUp stream d action)
    (inv : Spins d) (effect : Effect ids d action d') : Spins d' := by
  have small : ∀ p ∈ d.received, p.data.length < 2 ^ 32 := fun p member => by
    have := (read.valid p member).2; omega
  have shaken : ∀ {packet}, d.receive = .greet packet → packet.IsHello := by
    intro packet at_pc
    have received := handled.received_eq (by rw [at_pc]; trivial)
    exact peer.begins (read.beginsWith arrived (by rw [received, at_pc]; rfl))
  cases effect with
  | unknown => exact inv
  | failed => exact absurd met.2 id
  | destroys | warned | joined => exact absurd met.2 id
  | refused _ flag | exits _ flag =>
    rw [inv.flag] at flag
    cases flag
  | @threw caller type buffer size at_pc flag failed =>
    have sound := SoundHeaders.of_frames peer.valid (arrived.trans peer.sub)
    obtain ⟨-, bound⟩ := sound d.received _ _ read.valid (read.header at_pc flag)
    rw [ComPacket.ofSize_eq, if_pos bound] at failed
    cases failed
  | @asserted caller type buffer size at_pc flag invalid =>
    obtain ⟨length, whole⟩ := read.frame at_pc flag
    have member := (peer.received (d.received ++ [⟨type, buffer⟩]) ?_
      ((List.prefix_append _ _).trans (whole ▸ arrived))).subset
      (List.mem_append_right _ (List.mem_singleton_self _))
    · exact absurd invalid (peer.valid _ member).1
    · intro p member
      rcases List.mem_append.mp member with old | new
      · exact small p old
      · cases List.mem_singleton.mp new
        simp only
        omega
  | rejected at_pc other =>
    obtain ⟨control, hello⟩ := shaken at_pc
    obtain ⟨msg, first, differs⟩ := other control
    rw [hello] at first
    exact absurd (Option.some.inj first).symm differs
  | crashed at_pc empty =>
    obtain ⟨-, hello⟩ := shaken at_pc
    rw [empty] at hello
    cases hello
  | destructed _ same =>
    subst same
    split
    · exact ⟨by simpa using inv.flag, by simpa using inv.stays, by simpa using inv.alive⟩
    · exact ⟨inv.flag, inv.stays, inv.alive⟩
  | @received caller => exact ⟨inv.flag, by cases caller <;> nofun, by cases caller <;> nofun⟩
  | arrived | subscribed | constructed | moveConstructed | moveAssigned | destructedNull =>
    exact ⟨inv.flag, inv.stays, inv.alive⟩
  | readied | timedOut | reads | leaves | got | typed | sized | greeted | continues | handled | dispatched =>
    exact ⟨inv.flag, nofun, nofun⟩

theorem reach_spins {ids : IdManager} {frames : List ComPacket} {cut : Nat} {stream : List Byte}
    (peer : Cut frames cut stream) {d : PacketDemuxer} (reach : (system ids).ReachUnder (HangsUp stream) d) :
    Spins d := by
  refine reach.invariant ⟨rfl, nofun, nofun⟩ ?_
  intro s a s' before inv met run
  exact (step_effect run).spins peer (reach_arrived (fun _ _ met => met.1) before) (reach_readInv before)
    (reach_handledInv before) met inv

/-- Where the thread has no choice it can go on. -/
theorem receive_exists (ids : IdManager) (d : PacketDemuxer) (settled : match d.receive with
      | .ready _ | .read .. | .exited | .aborted => False
      | _ => True) : ∃ d', step ids d .receive = some d' := by
  cases at_pc : d.receive with
  | ready | read | exited | aborted => rw [at_pc] at settled; exact settled.elim
  | test caller field buffer size =>
    by_cases more : size > 0 ∧ d.transportError = false <;> simp [step, receiveStep, at_pc, more]
  | check caller field buffer size =>
    cases flag : d.transportError <;> simp [step, receiveStep, at_pc, flag]
  | greet | loop | dispatch => simp [step, receiveStep, at_pc]

/-- There is always a next step of the receive thread: the end of the stream is read as
no data yet, again and again. -/
theorem Spins.next {ids : IdManager} {stream : List Byte} {d : PacketDemuxer} (inv : Spins d) :
    ∃ action d', Receiving action ∧
      HangsUp stream d action ∧ step ids d action = some d' := by
  cases at_pc : d.receive with
  | ready caller => exact ⟨.ready true, _, Or.inr (Or.inl rfl), ⟨trivial, fun _ => rfl⟩, by simp [step, at_pc]; rfl⟩
  | read caller field buffer size =>
    exact ⟨.read (.count 0), _, Or.inr (Or.inr ⟨0, rfl⟩), ⟨trivial, trivial⟩,
      by simp [step, at_pc, Field.onZero_eq]; rfl⟩
  | exited => exact absurd at_pc inv.stays
  | aborted => exact absurd at_pc inv.alive
  | test | check | greet | loop | dispatch =>
    obtain ⟨d', run⟩ := receive_exists ids d (by rw [at_pc]; trivial)
    exact ⟨.receive, d', Or.inl rfl, ⟨trivial, trivial⟩, run⟩

/-- No run against a peer that hangs up ends: no error is ever noted, `receiveLoop` does not
return, and the thread can always go on. -/
theorem hangUp_never_ends (ids : IdManager) (frames : List ComPacket) (cut : Nat) (stream : List Byte)
    (peer : Cut frames cut stream) :
    ∀ d, (system ids).ReachUnder (HangsUp stream) d → d.transportError = false ∧ d.receive ≠ .exited ∧
      ∃ action d', Receiving action ∧
        HangsUp stream d action ∧ step ids d action = some d' := by
  intro d reach
  have inv := reach_spins peer reach
  exact ⟨inv.flag, inv.stays, inv.next⟩

/-- The peer sends a Hello message and nothing else. -/
theorem cut_hello : Cut [ControlMessage.hello.packet] 9 (ComPacket.frame ControlMessage.hello.packet) where
  valid := by decide
  hello := by
    intro p first _
    cases first
    exact ⟨rfl, rfl⟩
  taken := by decide

/-- The Hello message is received, and then the thread waits for a type that never comes. -/
theorem hangUp_never_ends_hello : ∃ (ids : IdManager) (d : PacketDemuxer),
    (d.received, d.input) = ([ControlMessage.hello.packet], []) ∧
    d.transportError = false ∧ d.receive ≠ .exited ∧
      ∃ action d', Receiving action ∧
        HangsUp (ComPacket.frame ControlMessage.hello.packet) d action ∧ step ids d action = some d' := by
  have begins : HangsUp (ComPacket.frame ControlMessage.hello.packet) {}
      (.arrive (ComPacket.frame ControlMessage.hello.packet)) := ⟨List.prefix_rfl, trivial⟩
  have arrived : (system IdManager.reserved).ReachUnder (HangsUp (ComPacket.frame ControlMessage.hello.packet))
      { arrived := ComPacket.frame ControlMessage.hello.packet,
        input := ComPacket.frame ControlMessage.hello.packet } := .next .start begins rfl
  have receiving : ∀ action ∈ frameActions ControlMessage.hello.packet ++
      [.receive, .receive, .ready true, .receive, .read (.count 0), .receive, .read (.count 0)],
      Receiving action := by
    intro action member
    rcases List.mem_append.mp member with framed | after
    · exact frameActions_receiving _ action framed
    · simp at after
      rcases after with rfl | rfl | rfl | rfl | rfl | rfl <;> simp [Receiving]
  obtain ⟨d, reach, seen⟩ := arrived.computed (fun d => (d.received, d.input)) _
    (fun action member => (receiving action member).hangsUp _) (r := ([ControlMessage.hello.packet], [])) (by decide)
  exact ⟨IdManager.reserved, d, seen, hangUp_never_ends IdManager.reserved _ 9 _ cut_hello d reach⟩

/-- The peer's hanging up ends the loop and sets the error, in some run at least. -/
def EndsOnHangUp (ids : IdManager) (stream : List Byte) : Prop :=
  ∃ d, (system ids).ReachUnder (HangsUp stream) d ∧ d.receive = .exited ∧ d.transportError = true

theorem hangUp_fails : ¬ ∀ (ids : IdManager) (frames : List ComPacket) (cut : Nat) (stream : List Byte),
    Cut frames cut stream → EndsOnHangUp ids stream := by
  intro always
  obtain ⟨d, reach, -, flag⟩ := always IdManager.reserved _ 9 _ cut_hello
  rw [(reach_spins cut_hello reach).flag] at flag
  cases flag

end PacketComms.PacketDemuxer
