import PacketComms.Demuxer.Effect

namespace PacketComms

namespace Field

/-- The bytes of the frame that lie before the buffer, for a buffer of `total` bytes. -/
def before (total : Nat) : Field → List Byte
  | .type => []
  | .size header => header
  | .payload t => htonl t ++ htonl (UInt32.ofNat total)

/-- What a buffer of `total` bytes can be for. -/
def Fits (total : Nat) : Field → Prop
  | .type => total = 4
  | .size header => header.length = 4 ∧ total = 4
  | .payload _ => total < 2 ^ 31

end Field

/-- The call of `readBytes` under way: what for, what is stored and what is missing. -/
def ReceivePc.reading : ReceivePc → Option (Field × List Byte × Nat)
  | .test _ field buffer size | .read _ field buffer size | .check _ field buffer size =>
    some (field, buffer, size)
  | _ => none

namespace PacketDemuxer

section Unsubscribe

variable (ids : IdManager) (d : PacketDemuxer) (s : PacketSubscriber)

@[simp] theorem unsubscribe_receive : (d.unsubscribe ids s).receive = d.receive := by
  unfold unsubscribe; dsimp only; split <;> [rfl; split <;> rfl]
@[simp] theorem unsubscribe_received : (d.unsubscribe ids s).received = d.received := by
  unfold unsubscribe; dsimp only; split <;> [rfl; split <;> rfl]
@[simp] theorem unsubscribe_input : (d.unsubscribe ids s).input = d.input := by
  unfold unsubscribe; dsimp only; split <;> [rfl; split <;> rfl]
@[simp] theorem unsubscribe_arrived : (d.unsubscribe ids s).arrived = d.arrived := by
  unfold unsubscribe; dsimp only; split <;> [rfl; split <;> rfl]
@[simp] theorem unsubscribe_waits : (d.unsubscribe ids s).waits = d.waits := by
  unfold unsubscribe; dsimp only; split <;> [rfl; split <;> rfl]
@[simp] theorem unsubscribe_transportError : (d.unsubscribe ids s).transportError = d.transportError := by
  unfold unsubscribe; dsimp only; split <;> [rfl; split <;> rfl]
@[simp] theorem unsubscribe_destructor : (d.unsubscribe ids s).destructor = d.destructor := by
  unfold unsubscribe; dsimp only; split <;> [rfl; split <;> rfl]
@[simp] theorem unsubscribe_nextAddr : (d.unsubscribe ids s).nextAddr = d.nextAddr := by
  unfold unsubscribe; dsimp only; split <;> [rfl; split <;> rfl]

end Unsubscribe

theorem Effect.arrived_cases {ids : IdManager} {d d' : PacketDemuxer} {action : DemuxerAction}
    (effect : Effect ids d action d') :
    (∃ bytes, action = .arrive bytes ∧ d'.arrived = d.arrived ++ bytes) ∨ d'.arrived = d.arrived := by
  cases effect with
  | arrived => exact Or.inl ⟨_, rfl, rfl⟩
  | destructed _ same =>
    subst same
    split
    · exact Or.inr (by simp)
    · exact Or.inr rfl
  | _ => exact Or.inr rfl

/-- No frame is half read: the thread waits, holds a packet, or is about to go on. -/
def Between (d : PacketDemuxer) : Prop :=
  match d.receive with
  | .ready _ | .greet _ | .dispatch _ => True
  | .loop => d.transportError = false
  | _ => False

/-- The bytes that have arrived are the frames of the packets received, the part of the next
frame that was read, and what is still to be read. -/
structure ReadInv (d : PacketDemuxer) : Prop where
  sub : ComPacket.code.stream d.received <+: d.arrived
  valid : ∀ p ∈ d.received, p.type ≠ IdManager.invalidPacket ∧ p.data.length < 2 ^ 31
  reading : ∀ field buffer size, d.receive.reading = some (field, buffer, size) →
    field.Fits (buffer.length + size) ∧
    ComPacket.code.stream d.received ++ (field.before (buffer.length + size) ++ (buffer ++ d.input)) = d.arrived
  between : d.Between → ComPacket.code.stream d.received ++ d.input = d.arrived
  done : ∀ caller field buffer size, d.receive = .check caller field buffer size →
    d.transportError = false → size = 0

/-- A step that reads nothing, and leaves the thread where it is or between two frames. -/
theorem ReadInv.quiet {d d' : PacketDemuxer} (inv : ReadInv d) (received : d'.received = d.received)
    (input : d'.input = d.input) (arrived : d'.arrived = d.arrived)
    (reading : ∀ call, d'.receive.reading = some call → d.receive.reading = some call)
    (between : d'.Between → d.Between)
    (done : ∀ caller field buffer size, d'.receive = .check caller field buffer size →
      d'.transportError = false → d.receive = .check caller field buffer size ∧ d.transportError = false) :
    ReadInv d' := by
  refine ⟨?_, ?_, ?_, ?_, ?_⟩
  · rw [received, arrived]; exact inv.sub
  · rw [received]; exact inv.valid
  · rw [received, input, arrived]
    exact fun field buffer size call => inv.reading field buffer size (reading _ call)
  · rw [received, input, arrived]
    exact fun now => inv.between (between now)
  · intro caller field buffer size at_pc flag
    obtain ⟨was, calm⟩ := done caller field buffer size at_pc flag
    exact inv.done caller field buffer size was calm

/-- A header that has been read completely, -/
theorem ReadInv.header {d : PacketDemuxer} (inv : ReadInv d) {caller : Caller} {type buffer : List Byte} {size : Nat}
    (at_pc : d.receive = .check caller (.size type) buffer size) (flag : d.transportError = false) :
    ComPacket.code.stream d.received ++ (htonl (ntohl type) ++ htonl (ntohl buffer)) <+: d.arrived := by
  have none := inv.done _ _ _ _ at_pc flag
  subst none
  obtain ⟨⟨four, four'⟩, split⟩ := inv.reading (.size type) buffer 0 (by rw [at_pc]; rfl)
  rw [htonl_ntohl four, htonl_ntohl four']
  exact ⟨d.input, by simpa [Field.before] using split⟩

/-- and a frame. -/
theorem ReadInv.frame {d : PacketDemuxer} (inv : ReadInv d) {caller : Caller} {type : PacketType}
    {buffer : List Byte} {size : Nat} (at_pc : d.receive = .check caller (.payload type) buffer size)
    (flag : d.transportError = false) : buffer.length < 2 ^ 31 ∧
      ComPacket.code.stream (d.received ++ [⟨type, buffer⟩]) ++ d.input = d.arrived := by
  have none := inv.done _ _ _ _ at_pc flag
  subst none
  obtain ⟨fits, split⟩ := inv.reading (.payload type) buffer 0 (by rw [at_pc]; rfl)
  refine ⟨fits, ?_⟩
  rw [← split]
  simp [Field.before, ComPacket.code, ComPacket.frame_eq, ComPacket.sizeField]

theorem Effect.readInv {ids : IdManager} {d d' : PacketDemuxer} {action : DemuxerAction} (inv : ReadInv d)
    (effect : Effect ids d action d') : ReadInv d' := by
  cases effect with
  | unknown => exact inv
  | subscribed | constructed | moveConstructed | moveAssigned | destructedNull | warned | joined =>
    exact inv.quiet rfl rfl rfl (fun _ call => call) id (fun _ _ _ _ at_pc flag => ⟨at_pc, flag⟩)
  | destructed _ same =>
    subst same
    split
    · exact inv.quiet (by simp) (by simp) (by simp) (by simp) (by simp [Between])
        (fun _ _ _ _ at_pc flag => ⟨by simpa using at_pc, by simpa using flag⟩)
    · exact inv.quiet rfl rfl rfl (fun _ call => call) id (fun _ _ _ _ at_pc flag => ⟨at_pc, flag⟩)
  | destroys =>
    refine inv.quiet rfl rfl rfl (fun _ call => call) ?_ nofun
    unfold Between
    dsimp only
    split <;> simp
  | @arrived bytes =>
    refine ⟨inv.sub.trans (List.prefix_append _ _), inv.valid, ?_, ?_, inv.done⟩
    · intro field buffer size call
      obtain ⟨fits, split⟩ := inv.reading field buffer size call
      refine ⟨fits, ?_⟩
      simp [← split]
    · intro between
      simp [← inv.between between]
  | readied at_pc =>
    have whole := inv.between (by simp [Between, at_pc])
    refine ⟨inv.sub, inv.valid, ?_, nofun, nofun⟩
    intro field buffer size call
    cases call
    exact ⟨rfl, by simpa [Field.before] using whole⟩
  | timedOut at_pc =>
    exact inv.quiet rfl rfl rfl nofun (fun _ => by simp [Between, at_pc]) nofun
  | reads at_pc => exact inv.quiet rfl rfl rfl (by rw [at_pc]; exact fun _ call => call) nofun nofun
  | leaves at_pc reason =>
    refine ⟨inv.sub, inv.valid, ?_, nofun, ?_⟩
    · intro field buffer size call
      exact inv.reading field buffer size (by rw [at_pc]; exact call)
    · intro caller field buffer size same calm
      cases same
      exact reason.resolve_right (by simp [show d.transportError = false from calm])
  | failed => exact inv.quiet rfl rfl rfl nofun nofun nofun
  | @got caller field buffer size n at_pc asked there =>
    obtain ⟨fits, split⟩ := inv.reading field buffer size (by rw [at_pc]; rfl)
    have total : (buffer ++ d.input.take n).length + (size - n) = buffer.length + size := by
      rw [List.length_append, List.length_take]
      omega
    refine ⟨inv.sub, inv.valid, ?_, nofun, nofun⟩
    intro field' buffer' size' call
    cases call
    rw [total]
    refine ⟨fits, ?_⟩
    simpa using split
  | refused at_pc flag => exact inv.quiet rfl rfl rfl nofun (by simp [Between, flag]) nofun
  | typed at_pc flag =>
    have none := inv.done _ _ _ _ at_pc flag
    subst none
    obtain ⟨fits, split⟩ := inv.reading _ _ _ (by rw [at_pc]; rfl)
    refine ⟨inv.sub, inv.valid, ?_, nofun, nofun⟩
    intro field buffer size call
    cases call
    exact ⟨⟨fits, rfl⟩, by simpa [Field.before] using split⟩
  | @sized caller type buffer size p at_pc flag made =>
    have none := inv.done _ _ _ _ at_pc flag
    subst none
    obtain ⟨⟨four, four'⟩, split⟩ := inv.reading _ _ _ (by rw [at_pc]; rfl)
    rw [ComPacket.ofSize_eq] at made
    split at made
    · rename_i small
      cases Option.some.inj made
      refine ⟨inv.sub, inv.valid, ?_, nofun, nofun⟩
      intro field buffer size call
      cases call
      refine ⟨by simpa [Field.Fits] using small, ?_⟩
      simpa [Field.before, htonl_ntohl four, htonl_ntohl four'] using split
    · cases made
  | @received caller type buffer size at_pc flag valid =>
    obtain ⟨small, whole⟩ := inv.frame at_pc flag
    refine ⟨⟨d.input, whole⟩, ?_, ?_, fun _ => whole, ?_⟩
    · intro p member
      rcases List.mem_append.mp member with old | new
      · exact inv.valid p old
      · cases List.mem_singleton.mp new
        exact ⟨valid, small⟩
    · cases caller <;> nofun
    · cases caller <;> nofun
  | threw | asserted | crashed => exact inv.quiet rfl rfl rfl nofun nofun nofun
  | greeted at_pc => exact inv.quiet rfl rfl rfl nofun (fun _ => by simp [Between, at_pc]) nofun
  | rejected at_pc => exact inv.quiet rfl rfl rfl nofun nofun nofun
  | continues at_pc flag => exact inv.quiet rfl rfl rfl nofun (fun _ => by simp [Between, at_pc, flag]) nofun
  | exits => exact inv.quiet rfl rfl rfl nofun nofun nofun
  | handled at_pc | dispatched at_pc =>
    exact inv.quiet rfl rfl rfl nofun (fun _ => by simp [Between, at_pc]) nofun

theorem reach_readInv {ids : IdManager} {C : PacketDemuxer → DemuxerAction → Prop} {d : PacketDemuxer}
    (reach : (system ids).ReachUnder C d) : ReadInv d := by
  refine reach.invariant ⟨List.prefix_rfl, nofun, nofun, fun _ => rfl, nofun⟩ ?_
  exact fun _ inv _ run => (step_effect run).readInv inv

end PacketDemuxer

end PacketComms
