import PacketComms.Link
import PacketComms.Demuxer.Liveness
import PacketComms.Muxer.HelloFirst
import PacketComms.Muxer.Sendable
import PacketComms.Muxer.Sent
import PacketComms.Muxer.StopFlag

namespace PacketComms

namespace IdManager

/-- The ids of the names of a list are those of user packets. -/
theorem toId_listed {names : List String} {ids : IdManager} (built : ofList names = some ids)
    (few : names.length ≤ 2 ^ 32 - 2) {name : String} (listed : name ∈ names) {type : PacketType}
    (issued : ids.toId name = some type) : type ≠ invalidPacket ∧ type ≠ controlPacket := by
  obtain ⟨i, bound, rfl⟩ := List.mem_iff_getElem.mp listed
  rw [toId_getElem built bound, Option.some.injEq] at issued
  have number : type.toNat = i + 2 := by
    rw [← issued, UInt32.toNat_ofNat', Nat.mod_eq_of_lt (by omega)]
  constructor
  · rintro rfl
    have zero : invalidPacket.toNat = 0 := rfl
    omega
  · rintro rfl
    have one : controlPacket.toNat = 1 := rfl
    omega

end IdManager

namespace PacketDemuxer

/-- No read fails. -/
def NoReadError (_ : PacketDemuxer) (action : DemuxerAction) : Prop := action ≠ .read .error

/-- The error comes from the destructor or from the handshake. -/
def AlarmInv (d : PacketDemuxer) : Prop :=
  d.transportError = true → d.destructor ≠ .notCalled ∨ ∃ p, d.received.head? = some p ∧ ¬ p.IsHello

theorem Effect.alarmInv {ids : IdManager} {d d' : PacketDemuxer} {action : DemuxerAction} (handled : HandledInv d)
    (inv : AlarmInv d) (met : NoReadError d action) (effect : Effect ids d action d') : AlarmInv d' := by
  cases effect with
  | destroys | warned | joined => exact fun _ => Or.inl (by simp)
  | destructed _ same =>
    subst same
    split
    · simpa [AlarmInv] using inv
    · exact inv
  | failed => exact absurd rfl met
  | received =>
    refine fun flag => (inv flag).imp id (fun ⟨p, first, other⟩ => ⟨p, ?_, other⟩)
    simp [first]
  | @rejected packet at_pc other =>
    refine fun _ => Or.inr ⟨packet, ?_, fun hello => ?_⟩
    · rw [handled.received_eq (by rw [at_pc]; trivial), at_pc]
      rfl
    · obtain ⟨msg, first, different⟩ := other hello.1
      rw [hello.2] at first
      exact different (Option.some.inj first).symm
  | _ => exact inv

theorem reach_alarmInv {ids : IdManager} {C : PacketDemuxer → DemuxerAction → Prop}
    (calm : ∀ d action, C d action → NoReadError d action) {d : PacketDemuxer} (reach : (system ids).ReachUnder C d) :
    AlarmInv d := by
  refine reach.invariant (by simp [AlarmInv, system]) ?_
  exact fun before inv met run => (step_effect run).alarmInv (reach_handledInv before) inv (calm _ _ met)

end PacketDemuxer

namespace Link

section Sides

variable {names : List String} {ids : IdManager} {l : Link}

/-- The program posts nothing that the assertion of `sendPacket` refuses. -/
theorem postsSendable (built : IdManager.ofList names = some ids) (few : names.length ≤ 2 ^ 32 - 2) :
    PacketMuxer.PostsSendable ids (ShortPost names) :=
  fun _ _ _ may issued _ => (IdManager.toId_listed built few may.1 issued).1 rfl

/-- What is sent can be received, and every control packet has a message. -/
theorem sent_sound (built : IdManager.ofList names = some ids) (few : names.length ≤ 2 ^ 32 - 2)
    (reach : (system ids).ReachUnder (Reliable (ShortPost names)) l) {p : ComPacket} (member : p ∈ l.muxer.sent) :
    p.Receivable ∧ p ≠ ⟨IdManager.controlPacket, []⟩ := by
  obtain ⟨muxer, -⟩ := reach_sides reach
  have post := PacketMuxer.reach_postInv (fun _ _ met => met.2) muxer
  have posted := (sent_sub muxer p.type).subset (List.mem_filter.mpr ⟨member, by simp⟩)
  simp only [postsOf, posts, List.mem_map, List.mem_filter, List.mem_filterMap] at posted
  obtain ⟨packet, ⟨⟨event, place, same⟩, -⟩, rfl⟩ := posted
  cases event with
  | posted name q =>
    cases same
    refine ⟨⟨post.sendable built (postsSendable built few) place, post.short (fun _ _ may => may.2) place⟩, ?_⟩
    intro empty
    obtain ⟨args, origin, made⟩ := post.posted name packet place
    rw [empty] at origin made
    rcases origin with ⟨may, issued⟩ | ⟨-, -, msg, rfl⟩
    · exact (IdManager.toId_listed built few may.1 issued).2 rfl
    · cases ControlMessage.make_args msg ▸ made
  | handed | popped => cases same

/-- What the peer of a demuxer can send it that is joined to a muxer. -/
def FromMuxer (d : PacketDemuxer) (action : DemuxerAction) : Prop :=
  PacketDemuxer.SoundPeer d action ∧ PacketDemuxer.NoReadError d action

/-- What the muxer has written is sound. -/
theorem wire_sound (built : IdManager.ofList names = some ids) (few : names.length ≤ 2 ^ 32 - 2)
    (reach : (system ids).ReachUnder (Reliable (ShortPost names)) l) :
    SoundHeaders l.muxer.wire ∧ ¬ BeginsWith l.muxer.wire ⟨IdManager.controlPacket, []⟩ := by
  have wire := (PacketMuxer.reach_wireInv (fun _ _ met => met.1) (reach_sides reach).1).sub
  have sound := fun p member => sent_sound built few reach (p := p) member
  refine ⟨SoundHeaders.of_frames (fun p member => (sound p member).1) wire, ?_⟩
  rintro ⟨-, -, begins⟩
  have first : [⟨IdManager.controlPacket, []⟩] <+: l.muxer.sent := by
    refine ComPacket.code.prefix_of_stream_prefix ?_ ?_ ?_
    · simp [ComPacket.code]
    · intro p member
      have small := (sound p member).1.2
      change p.data.length < 2 ^ 32
      omega
    · simpa [ComPacket.code] using begins.trans wire
  exact (sound _ (first.subset List.mem_cons_self)).2 rfl

/-- Each step of the link is one of the demuxer, or leaves it alone. -/
theorem demuxer_step (built : IdManager.ofList names = some ids) (few : names.length ≤ 2 ^ 32 - 2) {l' : Link}
    {action : LinkAction} (reach : (system ids).ReachUnder (Reliable (ShortPost names)) l)
    (met : Reliable (ShortPost names) l action) (run : step ids l action = some l') : l'.demuxer = l.demuxer ∨
      ∃ a, FromMuxer l.demuxer a ∧ PacketDemuxer.step ids l.demuxer a = some l'.demuxer := by
  rcases step_cases run with ⟨a, rfl, moved, arrives⟩ | ⟨a, rfl, other, moved, -⟩
  · by_cases aborted : l.demuxer.receive = .aborted
    · exact Or.inl (by simpa [PacketDemuxer.step, aborted] using arrives)
    · have arrived : PacketDemuxer.step ids l.demuxer (.arrive (l'.muxer.wire.drop l.muxer.wire.length)) =
          some l'.demuxer := by
        rw [PacketDemuxer.arrive_eq aborted] at arrives ⊢
        exact congrArg some arrives.symm
      refine Or.inr ⟨_, ⟨?_, by simp [PacketDemuxer.NoReadError]⟩, arrived⟩
      obtain ⟨more, grown⟩ := (PacketMuxer.step_effect moved).wire_grows
      have whole : l.demuxer.arrived ++ l'.muxer.wire.drop l.muxer.wire.length = l'.muxer.wire := by
        rw [(reach_streamInv reach).same aborted, ← grown, List.drop_left]
      have sound := wire_sound built few (reach.next met run)
      rw [← whole] at sound
      exact sound
  · refine Or.inr ⟨a, ⟨?_, ?_⟩, moved⟩
    · cases a with
      | arrive bytes => exact absurd rfl (other bytes)
      | _ => trivial
    · rintro rfl
      exact met

theorem reach_demuxer (built : IdManager.ofList names = some ids) (few : names.length ≤ 2 ^ 32 - 2)
    (reach : (system ids).ReachUnder (Reliable (ShortPost names)) l) :
    (PacketDemuxer.system ids).ReachUnder FromMuxer l.demuxer := by
  induction reach with
  | start => exact .start
  | next before met run ih =>
    rcases demuxer_step built few before met run with same | ⟨a, met', moved⟩
    · exact same ▸ ih
    · exact .next ih met' moved

theorem demuxer_alarm (built : IdManager.ofList names = some ids) (few : names.length ≤ 2 ^ 32 - 2)
    (reach : (system ids).ReachUnder (Reliable (ShortPost names)) l) (flag : l.demuxer.transportError = true) :
    l.demuxer.destructor ≠ .notCalled ∨ ∃ p, l.muxer.sent.head? = some p ∧ p ≠ ControlMessage.hello.packet := by
  have alarm := PacketDemuxer.reach_alarmInv (fun _ _ met => met.2) (reach_demuxer built few reach) flag
  refine alarm.imp id (fun ⟨p, first, other⟩ => ⟨p, ?_, ?_⟩)
  · obtain ⟨rest, received⟩ := received_sub (fun _ _ may => may.2) reach
    rw [← received, List.head?_append, first]
    rfl
  · rintro rfl
    exact other ⟨rfl, rfl⟩

end Sides

/-- Nothing goes wrong by itself. Over a reliable stream neither process ends before its time, the muxer notes an error
only if it is destroyed, and the demuxer only if it is, or if a packet was sent ahead of the Hello message. -/
theorem no_false_alarm (names : List String) (few : names.length ≤ 2 ^ 32 - 2) (ids : IdManager)
    (built : IdManager.ofList names = some ids) (l : Link)
    (reach : (system ids).ReachUnder (Reliable (ShortPost names)) l) :
    (∀ type, l.muxer.send ≠ .aborted type) ∧ l.demuxer.receive ≠ .aborted ∧
    (l.muxer.transportError = true → l.muxer.destructor ≠ .notCalled) ∧
    (l.demuxer.transportError = true → l.demuxer.destructor ≠ .notCalled ∨
      ∃ p, l.muxer.sent.head? = some p ∧ p ≠ ControlMessage.hello.packet) := by
  have muxer := (reach_sides reach).1
  refine ⟨?_, ?_, ?_, demuxer_alarm built few reach⟩
  · have posts := muxer.mono (fun _ _ met => met.2)
    exact (PacketMuxer.reach_sendable built (postsSendable built few) posts).2
  · exact PacketDemuxer.reach_alive (fun _ _ met => met.1) (reach_demuxer built few reach)
  · exact (PacketMuxer.reach_calmInv (fun _ _ met => met.1) muxer).flag

/-- The early packet is sent first, and the demuxer refuses it. -/
def refusesEarly : List LinkAction :=
  PacketMuxer.earlyPost.map .muxer ++ (PacketDemuxer.frameActions ⟨2, [7]⟩ ++ [DemuxerAction.receive]).map .demuxer

theorem refusesEarly_reliable : ∀ action ∈ refusesEarly, ∀ l, Reliable (ShortPost ["A"]) l action := by
  intro action member l
  simp only [refusesEarly, List.mem_append, List.mem_map] at member
  rcases member with ⟨a, member, rfl⟩ | ⟨a, member, rfl⟩
  · cases a with
    | post i name args =>
      simp [PacketMuxer.earlyPost] at member
      obtain ⟨-, rfl, rfl⟩ := member
      refine ⟨trivial, List.mem_cons_self, fun type packet built => ?_⟩
      cases Option.some.inj built
      exact (by decide : [(7 : Byte)].length < 2 ^ 31)
    | write answer =>
      cases answer with
      | error => simp [PacketMuxer.earlyPost] at member
      | count n => exact ⟨trivial, trivial⟩
    | _ => exact ⟨trivial, trivial⟩
  · cases a with
    | read answer =>
      cases answer with
      | error => simp [PacketDemuxer.frameActions, PacketDemuxer.readActions] at member
      | count n => trivial
    | _ => trivial

theorem no_false_alarm_early : ∃ (ids : IdManager) (l : Link), IdManager.ofList ["A"] = some ids ∧
    l.demuxer.transportError = true ∧ l.demuxer.destructor = .notCalled ∧
    ∃ p, l.muxer.sent.head? = some p ∧ p ≠ ControlMessage.hello.packet := by
  obtain ⟨ids, built, l, reach, seen⟩ : ∃ ids, IdManager.ofList ["A"] = some ids ∧
      ∃ l, (system ids).ReachUnder (Reliable (ShortPost ["A"])) l ∧
        (fun l : Link => (l.demuxer.transportError, l.demuxer.destructor)) l = (true, .notCalled) := by
    exact ⟨_, rfl, TransitionSystem.ReachUnder.start.computed _ refusesEarly refusesEarly_reliable (by decide)⟩
  obtain ⟨flag, alive⟩ := Prod.mk.inj seen
  obtain ⟨-, -, -, cause⟩ := no_false_alarm ["A"] (by decide) ids built l reach
  exact ⟨ids, l, built, flag, alive, (cause flag).resolve_left (by simp [alive])⟩

end Link

end PacketComms
