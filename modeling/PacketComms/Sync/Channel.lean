import PacketComms.Sync.Machine

namespace PacketComms

/-- What the program of a synchronisation posts. -/
def ReadyPost (archive : BoolArchive) (readyMsgStr : String) (name : String) (args : PacketArgs) : Prop :=
  name = readyMsgStr ∧ args = .moved (archive.encode true)

namespace PacketMuxer

/-- What the send thread posts is posted under the name of the control messages. -/
theorem Emplaced.postedUnder_control {ids : IdManager} {m m' : PacketMuxer} {t : MuxerThread} {alloc : Bool}
    {pc pc' : PostPc} (step : Emplaced m t alloc pc pc' m') (about : pc.Meets (ControlPost ids))
    {name : String} (other : name ≠ IdManager.controlString) : postedUnder name m'.log = postedUnder name m.log := by
  cases step with
  | locked | threw | unlocked => rfl
  | signalled => simp [signalPacketPosted]
  | emplaced =>
    obtain ⟨rfl, -⟩ := about
    simp [other.symm]

/-- The send thread and the transport leave the calls of the program alone, and what was posted
under its names. -/
theorem Effect.internal {allowed : String → PacketArgs → Prop} {ids : IdManager} {m m' : PacketMuxer}
    {action : MuxerAction} (inv : PostInv allowed ids m) (effect : Effect ids m action m')
    (internal : (LinkAction.muxer action).internal = true) {name : String} (other : name ≠ IdManager.controlString) :
    m'.users = m.users ∧ postedUnder name m'.log = postedUnder name m.log := by
  cases effect with
  | threw | called | user | destroy | destroyLocked | destroyStored | destroyUnlocked | destroyJoined => cases internal
  | hello at_pc step | heartBeat at_pc step =>
    have about := inv.send
    rw [at_pc] at about
    obtain ⟨-, users, -⟩ := step.lock
    exact ⟨users, step.postedUnder_control about other⟩
  | handed | asserted | popped => simp
  | _ => exact ⟨rfl, rfl⟩

/-- The call of `emplacePacket` for a name of the list. -/
theorem Effect.post {ids : IdManager} {m m' : PacketMuxer} {i : Nat} {name : String} {type : PacketType}
    {args : PacketArgs} (typed : ids.toId name = some type) (effect : Effect ids m (.post i name args) m') :
    m'.users = Function.update m.users i (.locking name type args) ∧ m'.log = m.log := by
  cases effect with
  | threw refused =>
    rw [typed] at refused
    cases refused
  | called _ issued =>
    rw [typed] at issued
    cases issued
    exact ⟨rfl, rfl⟩

/-- A step of a call that the program makes: its packet is put into its queue, or the history
stays as it is. -/
theorem Effect.emplaces {archive : BoolArchive} {readyMsgStr : String} {ids : IdManager} {m m' : PacketMuxer} {i : Nat}
    (inv : PostInv (ReadyPost archive readyMsgStr) ids m) (effect : Effect ids m (.user i true) m') :
    (m'.users i).queued = (m.users i).queued ∧ m'.log = m.log ∨
    (m.users i).queued = false ∧ (m'.users i).queued = true ∧
      ∃ packet, m'.log = m.log ++ [.posted readyMsgStr packet] := by
  cases effect with
  | user step =>
    have about := inv.users i
    generalize m.users i = pc at step about
    cases step with
    | locked | unlocked => exact Or.inl ⟨by simp [PostPc.queued], rfl⟩
    | signalled => exact Or.inl ⟨by simp [PostPc.queued], by simp [signalPacketPosted]⟩
    | threw failed =>
      obtain ⟨⟨-, rfl⟩, -⟩ := about
      simp [ComPacket.make] at failed
    | emplaced =>
      obtain ⟨⟨rfl, -⟩, -⟩ := about
      exact Or.inr ⟨rfl, by simp [PostPc.queued], _, rfl⟩

end PacketMuxer

/-- An event that no callback sees and that leaves the subscribers alone. -/
def DemuxerEvent.Quiet (event : DemuxerEvent) : Prop := (∃ p, event = .greeted p) ∨ ∃ p, event = .handled p

theorem DemuxerEvent.Quiet.cases {event : DemuxerEvent} (quiet : event.Quiet) :
    event.subscribed? = none ∧ (∀ s, event ≠ .unsubscribed s) ∧
      ∀ log, dispatches (log ++ [event]) = dispatches log := by
  rcases quiet with ⟨p, rfl⟩ | ⟨p, rfl⟩
  · exact ⟨rfl, fun s => by simp, fun log => by simp [dispatches]⟩
  · exact ⟨rfl, fun s => by simp, fun log => by simp [dispatches]⟩

namespace PacketDemuxer

/-- What the receive thread and the transport do to the history. -/
inductive LogGrows (d : PacketDemuxer) (action : DemuxerAction) (log : List DemuxerEvent) : Prop
  | same : log = d.log → LogGrows d action log
  | quiet {event} : event.Quiet → log = d.log ++ [event] → LogGrows d action log
  | dispatched {packet} : action = .receive → d.receive = .dispatch packet →
      log = d.log ++ [.dispatched ⟨d.nextAddr, packet⟩ (registered packet.type d.log)] → LogGrows d action log

/-- The receive thread and the transport leave the handles of the program alone. -/
theorem Effect.internal {ids : IdManager} {d d' : PacketDemuxer} {action : DemuxerAction} (inv : DispatchInv d)
    (alive : d.destructor ≠ .returned) (effect : Effect ids d action d')
    (internal : (LinkAction.demuxer action).internal = true) :
    d'.handles = d.handles ∧ d'.destructor = d.destructor ∧ LogGrows d action d'.log := by
  cases effect with
  | arrived | unknown | subscribed | constructed | moveConstructed | moveAssigned | destructedNull | destructed
  | destroys | warned | joined => cases internal
  | @greeted packet | @rejected packet => exact ⟨rfl, rfl, .quiet (.inl ⟨packet, rfl⟩) rfl⟩
  | handled => exact ⟨rfl, rfl, .quiet (.inr ⟨_, rfl⟩) rfl⟩
  | @dispatched packet at_pc =>
    refine ⟨rfl, rfl, .dispatched rfl at_pc ?_⟩
    rw [inv.lists alive packet.type, List.filterMap_map]
    simp
  | _ => exact ⟨rfl, rfl, .same rfl⟩

/-- The call of `subscribe` for a name of the list. -/
theorem Effect.subscribe {ids : IdManager} {d d' : PacketDemuxer} {i : Nat} {name : String} {type : PacketType}
    (typed : ids.toId name = some type) (effect : Effect ids d (.subscribe i name) d') :
    ∃ u, u.type = type ∧ u.addr = d.nextAddr ∧ d'.handles i = some (some u) ∧ d'.destructor = d.destructor ∧
      d'.log = d.log ++ [.subscribed u] := by
  cases effect with
  | unknown refused =>
    rw [typed] at refused
    cases refused
  | @subscribed _ _ other _ _ issued =>
    rw [typed] at issued
    cases issued
    exact ⟨⟨d.nextAddr, type⟩, rfl, rfl, by simp, rfl, rfl⟩

/-- The end of a handle that holds a subscriber, in a demuxer that lives on. -/
theorem Effect.destruct {ids : IdManager} {d d' : PacketDemuxer} {i : Nat} {u : PacketSubscriber}
    (inv : DispatchInv d') (alive : d.destructor ≠ .returned) (handle : d.handles i = some (some u))
    (effect : Effect ids d (.destruct i) d') :
    d'.handles i = none ∧ d'.destructor = d.destructor ∧ .unsubscribed u ∈ d'.log ∧
      ∃ more, d'.log = d.log ++ more ∧ ∀ event ∈ more, event = .unsubscribed u ∨ event = .destructed u := by
  cases effect with
  | destructedNull null =>
    rw [handle] at null
    cases null
  | @destructed _ s next holds same =>
    rw [handle] at holds
    cases holds
    have facts : next.destructor = d.destructor ∧ (next.log = d.log ∨ next.log = d.log ++ [.unsubscribed u]) := by
      rw [same]
      split
      · exact ⟨by simp, d.unsubscribe_log ids u⟩
      · exact ⟨rfl, Or.inl rfl⟩
    obtain ⟨destructor, log⟩ := facts
    refine ⟨by simp, destructor, ?_, ?_⟩
    · exact inv.left (by rw [← destructor] at alive; exact alive) u (by simp)
    · rcases log with log | log
      · exact ⟨[.destructed u], by simp [log], by simp⟩
      · exact ⟨[.unsubscribed u, .destructed u], by simp [log], by simp⟩

end PacketDemuxer

namespace Link

/-- The program and the threads of the muxer's side do not touch the demuxer, except that
bytes arrive there. -/
theorem step_muxer {ids : IdManager} {l l' : Link} {action : MuxerAction}
    (run : step ids l (.muxer action) = some l') : PacketMuxer.step ids l.muxer action = some l'.muxer ∧
    l'.demuxer.log = l.demuxer.log ∧ l'.demuxer.handles = l.demuxer.handles ∧
    l'.demuxer.destructor = l.demuxer.destructor := by
  rcases step_cases run with ⟨a, same, moved, arrives⟩ | ⟨a, same, -⟩
  · cases same
    refine ⟨moved, ?_⟩
    by_cases aborted : l.demuxer.receive = .aborted
    · have dead : l'.demuxer = l.demuxer := by simpa [PacketDemuxer.step, aborted] using arrives
      rw [dead]
      exact ⟨rfl, rfl, rfl⟩
    · rw [arrives, PacketDemuxer.arrive_eq aborted]
      exact ⟨rfl, rfl, rfl⟩
  · cases same

theorem step_demuxer {ids : IdManager} {l l' : Link} {action : DemuxerAction}
    (run : step ids l (.demuxer action) = some l') :
    PacketDemuxer.step ids l.demuxer action = some l'.demuxer ∧ l'.muxer = l.muxer := by
  rcases step_cases run with ⟨a, same, -⟩ | ⟨a, same, -, moved, kept⟩
  · cases same
  · cases same
    exact ⟨moved, kept⟩

end Link

end PacketComms
