import PacketComms.Muxer.EmplacePacket
import PacketComms.Muxer.Handing
import PacketComms.Muxer.Posting

namespace PacketComms

/-- The assertion of `sendPacket` has failed. -/
def SendPc.died : SendPc → Bool
  | .aborted _ => true
  | _ => false

namespace PacketMuxer

/-- Every packet in a queue passes the assertion of `sendPacket`, and none has failed it. -/
def Sendable (m : PacketMuxer) : Prop :=
  (∀ type, ∀ packet ∈ m.txQueues.get type, packet.packet.type ≠ IdManager.invalidPacket) ∧
  ∀ type, m.send ≠ .aborted type

/-- The constructor makes no packet of the invalid type for the program. -/
def PostsSendable (ids : IdManager) (allowed : String → PacketArgs → Prop) : Prop :=
  ∀ name args packet, allowed name args → ids.toId name = some IdManager.invalidPacket →
    ComPacket.make IdManager.invalidPacket args ≠ some packet

/-- What is in a queue was posted. -/
theorem Refines.posted_of_queued {m : PacketMuxer} {f : PacketType → Fifo SharedPacket} (related : Refines m f)
    {type : PacketType} {packet : SharedPacket} (member : packet ∈ m.txQueues.get type) :
    ∃ name, .posted name packet ∈ m.log := by
  rw [← related.queue] at member
  have posted := Fifo.mem_posted_of_mem_queue member
  rw [related.posted, postsOf, List.mem_filter, posts, List.mem_filterMap] at posted
  obtain ⟨⟨event, logged, same⟩, -⟩ := posted
  cases event with
  | posted name other =>
    cases Option.some.inj same
    exact ⟨name, logged⟩
  | handed | popped => cases same

/-- The send thread posts control packets only. -/
theorem PostInv.sendable {names : List String} {ids : IdManager} (built : IdManager.ofList names = some ids)
    {allowed : String → PacketArgs → Prop} (may : PostsSendable ids allowed) {m : PacketMuxer}
    (inv : PostInv allowed ids m) {name : String} {packet : SharedPacket} (member : .posted name packet ∈ m.log) :
    packet.packet.type ≠ IdManager.invalidPacket := by
  obtain ⟨args, origin, made⟩ := inv.posted name packet member
  intro invalid
  rw [invalid] at origin made
  rcases origin with ⟨user, issued⟩ | ⟨rfl, issued, -⟩
  · exact may name args _ user issued made
  · have control := IdManager.toId_controlString built
    rw [issued] at control
    cases control

/-- Only a packet that fails the assertion ends the process. -/
theorem Effect.alive {ids : IdManager} {m m' : PacketMuxer} {action : MuxerAction}
    (valid : ∀ type, ∀ packet ∈ m.txQueues.get type, packet.packet.type ≠ IdManager.invalidPacket)
    (alive : ∀ type, m.send ≠ .aborted type) (effect : Effect ids m action m') (type : PacketType) :
    m'.send ≠ .aborted type := by
  cases effect with
  | threw | called | destroy | destroyLocked | destroyUnlocked | destroyJoined => exact alive type
  | user step =>
    obtain ⟨-, -, -, -, -, aborted⟩ := step.sending_side
    exact fun dead => alive type ((aborted type).mp dead)
  | destroyStored =>
    intro dead
    exact alive type (m.stored_send.before dead (by simp))
  | @asserted type _ packet packets _ _ queue invalid =>
    exact absurd invalid (valid type packet (by rw [queue]; exact List.mem_cons_self))
  | _ => simp

theorem reach_sendable {names : List String} {ids : IdManager} (built : IdManager.ofList names = some ids)
    {allowed : String → PacketArgs → Prop} (may : PostsSendable ids allowed) {m : PacketMuxer}
    (reach : (system ids).ReachUnder (Posts allowed) m) : m.Sendable := by
  have valid : ∀ {m}, (system ids).ReachUnder (Posts allowed) m →
      ∀ type, ∀ packet ∈ m.txQueues.get type, packet.packet.type ≠ IdManager.invalidPacket := by
    intro m reach type packet member
    obtain ⟨f, -, related⟩ := (refines_fifo ids _).reach reach
    obtain ⟨name, posted⟩ := related.posted_of_queued member
    exact (reach_postInv (fun _ _ met => met) reach).sendable built may posted
  refine ⟨valid reach, ?_⟩
  refine reach.invariant (I := fun m => ∀ type, m.send ≠ .aborted type) (by simp [system]) ?_
  exact fun before alive _ run => (step_effect run).alive (valid before) alive

/-- A first call of `emplacePacket`, by a thread that meets no other. -/
theorem reach_emplaced (ids : IdManager) {allowed : String → PacketArgs → Prop} {name : String} {type : PacketType}
    {args : PacketArgs} {packet : ComPacket} (may : allowed name args) (issued : ids.toId name = some type)
    (made : ComPacket.make type args = some packet) :
    ∃ m, (system ids).ReachUnder (Posts allowed) m ∧ m.txQueues.get type = [⟨0, packet⟩] := by
  obtain ⟨call, run, posted, queue⟩ : ∃ call, emplacePacket ids {} (.user 0) name args true = some call ∧
      call.thrown = false ∧ call.muxer.txQueues.get type = [⟨0, packet⟩] := by
    simp [emplacePacket, issued, made, RecursiveMutex.acquire, RecursiveMutex.release, signalPacketPosted, notify]
  have steps := emplacePacket_run (by simp) rfl run posted
  exact ⟨call.muxer, TransitionSystem.ReachUnder.start.run (by simp [Posts, may]) steps, queue⟩

/-- Over all runs of a program that posts what is allowed: only packets that can be sent are queued, and the assertion
of `sendPacket` holds, exactly if no name it posts under has the id of invalid packets. -/
theorem sendable_iff (names : List String) (ids : IdManager) (built : IdManager.ofList names = some ids)
    (allowed : String → PacketArgs → Prop) :
    (∀ m, (system ids).ReachUnder (Posts allowed) m → m.Sendable) ↔ PostsSendable ids allowed := by
  constructor
  · intro all name args packet may issued made
    obtain ⟨m, reach, queue⟩ := reach_emplaced ids may issued made
    exact (all m reach).1 IdManager.invalidPacket ⟨0, packet⟩ (by rw [queue]; exact List.mem_singleton_self _)
      (ComPacket.make_type made)
  · exact fun may m reach => reach_sendable built may reach

/-- A post under the reserved name of invalid packets, and the send thread up to its assertion. -/
def postsInvalid : List MuxerAction :=
  [.post 0 IdManager.invalidString (.moved [7]), .user 0 true, .user 0 true, .user 0 true, .user 0 true] ++
  List.replicate 9 .send ++ [.iterate [0, 1], .send, .send]

theorem sendable_fails : ∃ ids : IdManager, IdManager.ofList ["A"] = some ids ∧
    ¬ ∀ m, (system ids).Reach m → m.Sendable := by
  obtain ⟨ids, built, m, reach, dead⟩ : ∃ ids, IdManager.ofList ["A"] = some ids ∧
      ∃ m, (system ids).Reach m ∧ m.send.died = true :=
    ⟨_, rfl, TransitionSystem.ReachUnder.start.computed (fun m : PacketMuxer => m.send.died) postsInvalid
      (fun _ _ _ => trivial) (by decide)⟩
  refine ⟨ids, built, fun all => ?_⟩
  obtain ⟨-, alive⟩ := all m reach
  cases at_pc : m.send with
  | aborted type => exact alive type at_pc
  | _ =>
    rw [at_pc] at dead
    cases dead

/-- A program that posts under a name of its list. -/
theorem sendable_iff_named : ∃ ids : IdManager, IdManager.ofList ["A"] = some ids ∧
    ((∀ m, (system ids).ReachUnder (Posts (fun name _ => name = "A")) m → m.Sendable) ↔
      PostsSendable ids (fun name _ => name = "A")) := by
  obtain ⟨ids, built⟩ : ∃ ids, IdManager.ofList ["A"] = some ids := IdManager.ofList_exists (by decide)
  exact ⟨ids, built, sendable_iff ["A"] ids built _⟩

end PacketMuxer

end PacketComms
