import PacketComms.Link.Alarms
import PacketComms.Muxer.Control

namespace PacketComms

namespace PacketDemuxer

/-- The handshake takes the first packet. -/
def GreetedFirst (log : List DemuxerEvent) : Prop :=
  ∀ before p, before ++ [.greeted p] <+: log → dealtWith before = []

theorem GreetedFirst.append {log : List DemuxerEvent} (inv : GreetedFirst log) {event : DemuxerEvent}
    (other : ∀ p, event ≠ .greeted p) : GreetedFirst (log ++ [event]) :=
  fun before p place => inv before p (List.prefix_of_concat_ne place (other p).symm)

theorem GreetedFirst.greeted {log : List DemuxerEvent} (inv : GreetedFirst log) (none : dealtWith log = [])
    (p : ComPacket) : GreetedFirst (log ++ [.greeted p]) := by
  intro before q place
  rcases List.concat_prefix_concat place with ⟨rfl, -⟩ | earlier
  · exact none
  · exact inv before q earlier

theorem Effect.greetedFirst {ids : IdManager} {d d' : PacketDemuxer} {action : DemuxerAction} (handled : HandledInv d)
    (inv : GreetedFirst d.log) (effect : Effect ids d action d') : GreetedFirst d'.log := by
  cases effect with
  | greeted at_pc | rejected at_pc => exact inv.greeted (handled.greeting (by rw [at_pc]; trivial)) _
  | handled | dispatched | subscribed => exact inv.append (by simp)
  | @destructed i s next _ same =>
    have left : GreetedFirst next.log := by
      rw [same]
      split
      · rcases d.unsubscribe_log ids s with log | log <;> rw [log]
        · exact inv
        · exact inv.append (by simp)
      · exact inv
    exact left.append (by simp)
  | _ => exact inv

theorem reach_greetedFirst {ids : IdManager} {C : PacketDemuxer → DemuxerAction → Prop} {d : PacketDemuxer}
    (reach : (system ids).ReachUnder C d) : GreetedFirst d.log := by
  refine reach.invariant (I := fun d => GreetedFirst d.log) (fun before p place => ?_) ?_
  · simp [system] at place
  · exact fun before inv _ run => (step_effect run).greetedFirst (reach_handledInv before) inv

/-- All packets but the one of the handshake are dealt with after it. -/
theorem GreetedFirst.split {log : List DemuxerEvent} (inv : GreetedFirst log) {p : ComPacket}
    (greeted : .greeted p ∈ log) :
    ∃ after, dealtWith log = p :: dealtWith after ∧ ∀ q, .handled q ∈ log → q.packet ∈ dealtWith after := by
  obtain ⟨before, after, rfl⟩ := List.append_of_mem greeted
  have none : dealtWith before = [] := inv before p ⟨after, by simp⟩
  refine ⟨after, ?_, fun q member => ?_⟩
  · simp only [dealtWith, List.filterMap_append] at none ⊢
    rw [none]
    rfl
  · have later : .handled q ∈ after := by
      rcases List.mem_append.mp member with early | here
      · have taken : q.packet ∈ dealtWith before := List.mem_filterMap.mpr ⟨_, early, rfl⟩
        rw [none] at taken
        cases taken
      · exact (List.mem_cons.mp here).resolve_left (by simp)
    exact List.mem_filterMap.mpr ⟨_, later, rfl⟩

end PacketDemuxer

namespace Link

/-- The control channel. All that is sent on it, and all that the demuxer takes from it, are one Hello message and then
heart beats. The handshake takes no heart beat, and where there was one, `handleControlMessage` is given heart beats
only. -/
theorem control_channel (names : List String) (few : names.length ≤ 2 ^ 32 - 2) (ids : IdManager)
    (built : IdManager.ofList names = some ids) (l : Link)
    (reach : (system ids).ReachUnder (Reliable (ShortPost names)) l) :
    (∃ beats, l.muxer.sent.filter (·.type = IdManager.controlPacket) <+: helloAndBeats beats) ∧
    (∃ beats, (dealtWith l.demuxer.log).filter (·.type = IdManager.controlPacket) <+: helloAndBeats beats) ∧
    ∀ p, .greeted p ∈ l.demuxer.log → p.type = IdManager.controlPacket → p = ControlMessage.hello.packet ∧
      ∀ q, .handled q ∈ l.demuxer.log → q.packet = ControlMessage.heartBeat.packet := by
  obtain ⟨muxer, demuxer⟩ := reach_sides reach
  have user : ∀ name args, ShortPost names name args → ids.toId name ≠ some IdManager.controlPacket :=
    fun name args may issued => (IdManager.toId_listed built few may.1 issued).2 rfl
  obtain ⟨beats, posted⟩ := (PacketMuxer.reach_controlInv built user (fun _ _ met => met.2) muxer).posted
  have sent := (sent_sub muxer IdManager.controlPacket).trans posted
  have dealt := ((PacketDemuxer.reach_handledInv demuxer).sub.trans (received_sub (fun _ _ may => may.2) reach)).filter
    (fun p => decide (p.type = IdManager.controlPacket))
  have taken := dealt.trans sent
  refine ⟨⟨beats, sent⟩, ⟨beats, taken⟩, fun p greeted control => ?_⟩
  obtain ⟨after, split, later⟩ := (PacketDemuxer.reach_greetedFirst demuxer).split greeted
  rw [split, List.filter_cons_of_pos (by simpa using control), helloAndBeats, List.cons_prefix_cons] at taken
  obtain ⟨first, rest⟩ := taken
  refine ⟨first, fun q handled => List.eq_of_mem_replicate (rest.subset ?_)⟩
  have type := (PacketDemuxer.reach_controlInv demuxer).handled q handled
  exact List.mem_filter.mpr ⟨later q handled, by simpa using type⟩

/-- The program posts nothing, and nothing fails. -/
def silent : LinkAction → Bool
  | .muxer (.post ..) | .muxer (.write .error) | .demuxer (.read .error) => false
  | _ => true

theorem reliable_of_silent {allowed : String → PacketArgs → Prop} (l : Link) {action : LinkAction}
    (quiet : silent action = true) : Reliable allowed l action := by
  cases action with
  | muxer a =>
    cases a with
    | post => cases quiet
    | write answer =>
      cases answer with
      | error => cases quiet
      | count n => exact ⟨trivial, trivial⟩
    | _ => exact ⟨trivial, trivial⟩
  | demuxer a =>
    cases a with
    | read answer =>
      cases answer with
      | error => cases quiet
      | count n => trivial
    | _ => trivial

/-- The Hello message is sent, and a heart beat after a wait. -/
def sendsBeat : List MuxerAction :=
  PacketMuxer.aloneUntilHello ++ List.replicate 5 .send ++ [.wake true] ++ List.replicate 6 .send ++
  [.iterate [1], .send, .send, .write (.count 4), .send, .write (.count 4), .send, .write (.count 1)]

def receivesBeat : List DemuxerAction :=
  PacketDemuxer.frameActions ControlMessage.hello.packet ++ [.receive, .receive] ++
  PacketDemuxer.frameActions ControlMessage.heartBeat.packet ++ [.receive]

def beatsOnce : List LinkAction := sendsBeat.map .muxer ++ receivesBeat.map .demuxer

theorem control_channel_beat : ∃ (ids : IdManager) (l : Link), IdManager.ofList ["A"] = some ids ∧
    l.demuxer.log = [.greeted ControlMessage.hello.packet, .handled ⟨0, ControlMessage.heartBeat.packet⟩] ∧
    ∃ beats, (dealtWith l.demuxer.log).filter (·.type = IdManager.controlPacket) <+: helloAndBeats beats := by
  obtain ⟨ids, built, l, reach, log⟩ : ∃ ids, IdManager.ofList ["A"] = some ids ∧
      ∃ l, (system ids).ReachUnder (Reliable (ShortPost ["A"])) l ∧
        (fun l : Link => l.demuxer.log) l =
          [.greeted ControlMessage.hello.packet, .handled ⟨0, ControlMessage.heartBeat.packet⟩] := by
    have quiet : beatsOnce.all silent = true := by decide
    exact ⟨_, rfl, TransitionSystem.ReachUnder.start.computed _ beatsOnce
      (fun action member l => reliable_of_silent l (List.all_eq_true.mp quiet action member)) (by decide +kernel)⟩
  exact ⟨ids, l, built, log, (control_channel ["A"] (by decide) ids built l reach).2.1⟩

end Link

end PacketComms
