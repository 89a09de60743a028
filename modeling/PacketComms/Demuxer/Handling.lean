import PacketComms.Demuxer.Reading

namespace PacketComms

/-- The packet that an event takes from the receive thread. -/
def DemuxerEvent.packet? : DemuxerEvent → Option ComPacket
  | .greeted packet => some packet
  | .handled packet | .dispatched packet _ => some packet.packet
  | _ => none

/-- The packets that were dealt with, in order. -/
def dealtWith (log : List DemuxerEvent) : List ComPacket := log.filterMap DemuxerEvent.packet?

/-- The callbacks that an event invokes, each with the packet it is given. -/
def DemuxerEvent.calls : DemuxerEvent → List (PacketSubscriber × SharedPacket)
  | .dispatched packet calls => calls.map (fun s => (s, packet))
  | _ => []

/-- The callbacks invoked, in order. -/
def invocations (log : List DemuxerEvent) : List (PacketSubscriber × SharedPacket) :=
  log.flatMap DemuxerEvent.calls

section Histories

variable (log : List DemuxerEvent)

@[simp] theorem invocations_append (event : DemuxerEvent) :
    invocations (log ++ [event]) = invocations log ++ event.calls := by
  simp [invocations]

/-- A callback is invoked with a packet only. -/
theorem invocations_of_dealtWith (none : dealtWith log = []) : invocations log = [] := by
  refine List.flatMap_eq_nil_iff.mpr (fun event member => ?_)
  have quiet := List.filterMap_eq_nil_iff.mp none event member
  cases event with
  | dispatched packet calls => cases quiet
  | _ => rfl

@[simp] theorem dealtWith_greeted (packet : ComPacket) :
    dealtWith (log ++ [.greeted packet]) = dealtWith log ++ [packet] := by
  simp [dealtWith, DemuxerEvent.packet?]

@[simp] theorem dealtWith_handled (packet : SharedPacket) :
    dealtWith (log ++ [.handled packet]) = dealtWith log ++ [packet.packet] := by
  simp [dealtWith, DemuxerEvent.packet?]

@[simp] theorem dealtWith_dispatched (packet : SharedPacket) (calls : List PacketSubscriber) :
    dealtWith (log ++ [.dispatched packet calls]) = dealtWith log ++ [packet.packet] := by
  simp [dealtWith, DemuxerEvent.packet?]

@[simp] theorem dealtWith_subscribed (s : PacketSubscriber) :
    dealtWith (log ++ [.subscribed s]) = dealtWith log := by
  simp [dealtWith, DemuxerEvent.packet?]

@[simp] theorem dealtWith_unsubscribed (s : PacketSubscriber) :
    dealtWith (log ++ [.unsubscribed s]) = dealtWith log := by
  simp [dealtWith, DemuxerEvent.packet?]

@[simp] theorem dealtWith_destructed (s : PacketSubscriber) :
    dealtWith (log ++ [.destructed s]) = dealtWith log := by
  simp [dealtWith, DemuxerEvent.packet?]

end Histories

namespace ReceivePc

/-- The packet that `receivePacket` has returned and that is still to be dealt with. -/
def inHand : ReceivePc → List ComPacket
  | .greet packet | .dispatch packet => [packet]
  | _ => []

/-- The thread is in `receiveHelloMessage`. -/
def Greeting : ReceivePc → Prop
  | .ready caller | .test caller .. | .read caller .. | .check caller .. => caller = .receiveHelloMessage
  | .greet _ => True
  | _ => False

end ReceivePc

namespace PacketDemuxer

@[simp] theorem unsubscribe_invocations (ids : IdManager) (d : PacketDemuxer) (s : PacketSubscriber) :
    invocations (d.unsubscribe ids s).log = invocations d.log := by
  unfold unsubscribe; dsimp only; split <;> [rfl; (split <;> simp [DemuxerEvent.calls])]

@[simp] theorem unsubscribe_dealtWith (ids : IdManager) (d : PacketDemuxer) (s : PacketSubscriber) :
    dealtWith (d.unsubscribe ids s).log = dealtWith d.log := by
  unfold unsubscribe; dsimp only; split <;> [rfl; (split <;> simp)]

/-- Every packet received is dealt with once, in the order of arrival, and only
the one in hand is still to come. -/
structure HandledInv (d : PacketDemuxer) : Prop where
  all : d.receive ≠ .aborted → dealtWith d.log ++ d.receive.inHand = d.received
  sub : dealtWith d.log <+: d.received
  greeting : d.receive.Greeting → dealtWith d.log = []

/-- A step that takes no packet from the thread and gives it none. -/
theorem HandledInv.quiet {d d' : PacketDemuxer} (inv : HandledInv d) (received : d'.received = d.received)
    (log : dealtWith d'.log = dealtWith d.log)
    (inHand : d'.receive ≠ .aborted → d.receive ≠ .aborted ∧ d'.receive.inHand = d.receive.inHand)
    (greeting : d'.receive.Greeting → d.receive.Greeting) : HandledInv d' := by
  refine ⟨?_, by rw [log, received]; exact inv.sub, fun now => by rw [log]; exact inv.greeting (greeting now)⟩
  intro alive
  obtain ⟨before, same⟩ := inHand alive
  rw [log, received, same]
  exact inv.all before

/-- The packet in hand is dealt with. -/
theorem HandledInv.dealt {d d' : PacketDemuxer} (inv : HandledInv d) {packet : ComPacket}
    (hand : d.receive.inHand = [packet]) (alive : d.receive ≠ .aborted) (received : d'.received = d.received)
    (log : dealtWith d'.log = dealtWith d.log ++ [packet]) (after : d'.receive = .loop) : HandledInv d' := by
  have all := inv.all alive
  rw [hand, ← log] at all
  exact ⟨fun _ => by rw [after, received]; simpa [ReceivePc.inHand] using all,
    by rw [received, all], fun greeting => by simp [after, ReceivePc.Greeting] at greeting⟩

theorem Effect.handledInv {ids : IdManager} {d d' : PacketDemuxer} {action : DemuxerAction}
    (inv : HandledInv d) (effect : Effect ids d action d') : HandledInv d' := by
  cases effect with
  | unknown => exact inv
  | subscribed => exact inv.quiet rfl (dealtWith_subscribed ..) (fun alive => ⟨alive, rfl⟩) id
  | arrived | constructed | moveConstructed | moveAssigned | destructedNull | destroys | warned | joined =>
    exact inv.quiet rfl rfl (fun alive => ⟨alive, rfl⟩) id
  | destructed _ same =>
    subst same
    split
    · exact inv.quiet (by simp) (by simp) (by simp) (by simp)
    · exact inv.quiet rfl (dealtWith_destructed ..) (fun alive => ⟨alive, rfl⟩) id
  | greeted at_pc | rejected at_pc =>
    exact inv.dealt (by rw [at_pc]; rfl) (by rw [at_pc]; nofun) rfl (dealtWith_greeted ..) rfl
  | handled at_pc =>
    exact inv.dealt (by rw [at_pc]; rfl) (by rw [at_pc]; nofun) rfl (dealtWith_handled ..) rfl
  | dispatched at_pc =>
    exact inv.dealt (by rw [at_pc]; rfl) (by rw [at_pc]; nofun) rfl (dealtWith_dispatched ..) rfl
  | @received caller type buffer size at_pc =>
    have all := inv.all (by rw [at_pc]; nofun)
    rw [at_pc] at all
    change dealtWith d.log ++ [] = d.received at all
    rw [List.append_nil] at all
    refine ⟨?_, inv.sub.trans (List.prefix_append _ _), ?_⟩
    · cases caller <;> exact fun _ => by simp [ReceivePc.inHand, all]
    · cases caller with
      | receiveHelloMessage => exact fun _ => inv.greeting (by rw [at_pc]; rfl)
      | receiveLoop => exact nofun
  | threw | asserted | crashed => exact inv.quiet rfl rfl (fun alive => absurd rfl alive) nofun
  | readied at_pc | reads at_pc | leaves at_pc | got at_pc | typed at_pc | sized at_pc =>
    exact inv.quiet rfl rfl (fun _ => by rw [at_pc]; exact ⟨nofun, rfl⟩) (by rw [at_pc]; exact id)
  | timedOut at_pc | failed at_pc | refused at_pc | continues at_pc | exits at_pc =>
    exact inv.quiet rfl rfl (fun _ => by rw [at_pc]; exact ⟨nofun, rfl⟩) nofun

theorem reach_handledInv {ids : IdManager} {C : PacketDemuxer → DemuxerAction → Prop} {d : PacketDemuxer}
    (reach : (system ids).ReachUnder C d) : HandledInv d := by
  refine reach.invariant ⟨fun _ => rfl, List.prefix_rfl, fun _ => rfl⟩ ?_
  exact fun _ inv _ run => (step_effect run).handledInv inv

/-- In `receiveHelloMessage` nothing has been received but the packet in its hands. -/
theorem HandledInv.received_eq {d : PacketDemuxer} (inv : HandledInv d) (greeting : d.receive.Greeting) :
    d.received = d.receive.inHand := by
  have alive : d.receive ≠ .aborted := by
    intro dead
    rw [dead] at greeting
    exact greeting
  have received := inv.all alive
  rw [inv.greeting greeting, List.nil_append] at received
  exact received.symm

end PacketDemuxer

end PacketComms
