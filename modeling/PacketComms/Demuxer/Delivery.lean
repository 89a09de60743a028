import PacketComms.Demuxer.Dispatch
import PacketComms.Demuxer.Handshake

namespace PacketComms

/-- The packets dispatched to subscribers, in order. -/
def dispatches (log : List DemuxerEvent) : List SharedPacket :=
  log.filterMap fun
    | .dispatched packet _ => some packet
    | _ => none

theorem dispatches_append (log more : List DemuxerEvent) :
    dispatches (log ++ more) = dispatches log ++ dispatches more :=
  List.filterMap_append

/-- Without a packet dealt with there is none dispatched. -/
theorem dispatches_of_dealtWith {log : List DemuxerEvent} (none : dealtWith log = []) : dispatches log = [] := by
  refine List.filterMap_eq_nil_iff.mpr (fun event member => ?_)
  have quiet := List.filterMap_eq_nil_iff.mp none event member
  cases event with
  | dispatched packet calls => cases quiet
  | _ => rfl

theorem window_nil_of_dispatches {s : PacketSubscriber} {before log : List DemuxerEvent}
    (none : dispatches log = []) : window s before log = [] := by
  induction log generalizing before with
  | nil => rfl
  | cons event log ih =>
    cases event with
    | dispatched packet calls => cases none
    | _ => exact ih none

/-- While the subscription lasts, every packet of the type is due. -/
theorem window_of_subscribed {s : PacketSubscriber} {before log : List DemuxerEvent}
    (subscribed : .subscribed s ∈ before) (kept : .unsubscribed s ∉ before ++ log) :
    window s before log = (dispatches log).filter (·.packet.type = s.type) := by
  induction log generalizing before with
  | nil => rfl
  | cons event log ih =>
    rw [List.append_cons] at kept
    have rest := ih (List.mem_append_left [event] subscribed) kept
    have now : Subscribed s before := ⟨subscribed, fun member => kept (by simp [member])⟩
    rw [window, rest]
    cases event with
    | dispatched packet calls =>
      by_cases typed : packet.packet.type = s.type <;> simp [dueAt, dispatches, typed, now]
    | _ => rfl

/-- The subscription came before the first dispatch and has not ended. -/
structure Standing (s : PacketSubscriber) (log : List DemuxerEvent) : Prop where
  early : ∃ before after, log = before ++ .subscribed s :: after ∧ dispatches before = []
  kept : .unsubscribed s ∉ log

theorem Standing.window {s : PacketSubscriber} {log : List DemuxerEvent} (standing : Standing s log) :
    window s [] log = (dispatches log).filter (·.packet.type = s.type) := by
  obtain ⟨⟨before, after, rfl, none⟩, kept⟩ := standing
  rw [List.append_cons] at kept ⊢
  have quiet : dispatches (before ++ [.subscribed s]) = [] := by rw [dispatches_append, none]; rfl
  rw [window_append, window_nil_of_dispatches quiet, List.nil_append, List.nil_append,
    window_of_subscribed (by simp) kept, dispatches_append, quiet, List.nil_append]

/-- Where only control packets are dealt with otherwise, the user packets dealt with are those dispatched, -/
theorem dealtWith_users {log : List DemuxerEvent} (users : ComPacket → Bool)
    (not_control : ∀ p, p.type = IdManager.controlPacket → users p = false)
    (handled : ∀ p, .handled p ∈ log → p.packet.type = IdManager.controlPacket)
    (greeted : ∀ p, .greeted p ∈ log → p.type = IdManager.controlPacket) :
    ((dispatches log).filter (fun p => users p.packet)).map (·.packet) = (dealtWith log).filter users := by
  induction log with
  | nil => rfl
  | cons event log ih =>
    have rest := ih (fun p member => handled p (List.mem_cons_of_mem _ member))
      (fun p member => greeted p (List.mem_cons_of_mem _ member))
    unfold dispatches dealtWith at *
    cases event with
    | greeted p =>
      have other := not_control p (greeted p List.mem_cons_self)
      simpa [List.filterMap_cons, DemuxerEvent.packet?, other] using rest
    | handled p =>
      have other := not_control p.packet (handled p List.mem_cons_self)
      simpa [List.filterMap_cons, DemuxerEvent.packet?, other] using rest
    | dispatched p calls =>
      cases user : users p.packet <;> simpa [List.filterMap_cons, DemuxerEvent.packet?, user] using rest
    | _ => simpa [List.filterMap_cons, DemuxerEvent.packet?] using rest

/-- and so are those of one type. -/
theorem dealtWith_filter {log : List DemuxerEvent} {type : PacketType} (user : type ≠ IdManager.controlPacket)
    (handled : ∀ p, .handled p ∈ log → p.packet.type = IdManager.controlPacket)
    (greeted : ∀ p, .greeted p ∈ log → p.type = IdManager.controlPacket) :
    ((dispatches log).filter (·.packet.type = type)).map (·.packet) = (dealtWith log).filter (·.type = type) :=
  dealtWith_users (fun p => decide (p.type = type))
    (fun _ control => decide_eq_false (fun typed => user (typed.symm.trans control))) handled greeted

namespace PacketDemuxer

theorem unsubscribe_log (ids : IdManager) (d : PacketDemuxer) (s : PacketSubscriber) :
    (d.unsubscribe ids s).log = d.log ∨ (d.unsubscribe ids s).log = d.log ++ [.unsubscribed s] := by
  unfold unsubscribe; dsimp only; split <;> [exact Or.inl rfl; (split <;> [exact Or.inl rfl; exact Or.inr rfl])]

/-- The history only grows. -/
theorem Effect.log_grows {ids : IdManager} {d d' : PacketDemuxer} {action : DemuxerAction}
    (effect : Effect ids d action d') : d.log <+: d'.log := by
  cases effect with
  | greeted | rejected | handled | dispatched | subscribed => exact List.prefix_append _ _
  | @destructed i s next _ same =>
    have grown : d.log <+: next.log := by
      rw [same]
      split
      · rcases d.unsubscribe_log ids s with log | log <;> rw [log]
        exact List.prefix_append _ _
      · exact List.prefix_rfl
    exact grown.trans (List.prefix_append _ _)
  | _ => exact List.prefix_rfl

/-- A packet is taken as the handshake when `receiveHelloMessage` has it. -/
theorem Effect.greeted_cases {ids : IdManager} {d d' : PacketDemuxer} {action : DemuxerAction}
    (effect : Effect ids d action d') {p : ComPacket} (member : .greeted p ∈ d'.log) :
    .greeted p ∈ d.log ∨ d.receive = .greet p := by
  cases effect with
  | @greeted packet at_pc | @rejected packet at_pc =>
    rcases List.mem_append.mp member with old | new
    · exact Or.inl old
    · cases List.mem_singleton.mp new
      exact Or.inr at_pc
  | handled | dispatched | subscribed => exact Or.inl (by simpa using member)
  | @destructed i s next _ same =>
    have kept : .greeted p ∈ next.log := by simpa using member
    rw [same] at kept
    split at kept
    · rcases d.unsubscribe_log ids s with log | log <;> rw [log] at kept <;> exact Or.inl (by simpa using kept)
    · exact Or.inl kept
  | _ => exact Or.inl member

/-- What is dealt with without a dispatch is a control packet, or a first packet that ends
everything. -/
structure ControlInv (d : PacketDemuxer) : Prop where
  handled : ∀ p, .handled p ∈ d.log → p.packet.type = IdManager.controlPacket
  greeted : ∀ p, .greeted p ∈ d.log → p.type = IdManager.controlPacket ∨
    dispatches d.log = [] ∧ d.transportError = true ∧ (d.receive = .loop ∨ d.receive = .exited)

/-- A step that adds no packet to the history, in a thread that has not given up. -/
theorem ControlInv.goesOn {d d' : PacketDemuxer} (inv : ControlInv d) (log : d'.log = d.log)
    (working : d.receive ≠ .loop ∧ d.receive ≠ .exited) : ControlInv d' := by
  refine ⟨by rw [log]; exact inv.handled, fun p member => Or.inl ?_⟩
  rw [log] at member
  rcases inv.greeted p member with control | ⟨-, -, stopped⟩
  · exact control
  · exact absurd stopped (not_or.mpr working)

/-- A step that leaves the thread where it is, or stops it. -/
theorem ControlInv.stays {d d' : PacketDemuxer} (inv : ControlInv d)
    (handled : ∀ p, .handled p ∈ d'.log → .handled p ∈ d.log) (greeted : ∀ p, .greeted p ∈ d'.log → .greeted p ∈ d.log)
    (log : dispatches d'.log = dispatches d.log) (flag : d.transportError = true → d'.transportError = true)
    (receive : d.receive = .loop ∨ d.receive = .exited → d'.receive = .loop ∨ d'.receive = .exited) :
    ControlInv d' := by
  refine ⟨fun p member => inv.handled p (handled p member), fun p member => ?_⟩
  rw [log]
  exact (inv.greeted p (greeted p member)).imp id (fun ⟨calls, noted, stopped⟩ => ⟨calls, flag noted, receive stopped⟩)

theorem Effect.controlInv {ids : IdManager} {d d' : PacketDemuxer} {action : DemuxerAction} (handled : HandledInv d)
    (inv : ControlInv d) (effect : Effect ids d action d') : ControlInv d' := by
  cases effect with
  | unknown => exact inv
  | arrived | constructed | moveConstructed | moveAssigned | destructedNull | warned | joined =>
    exact inv.stays (fun _ => id) (fun _ => id) rfl id id
  | destroys => exact inv.stays (fun _ => id) (fun _ => id) rfl (fun _ => rfl) id
  | subscribed => exact inv.stays (by simp) (by simp) (by simp [dispatches]) id id
  | @destructed i s next _ same =>
    have facts : (∀ p, .handled p ∈ next.log → .handled p ∈ d.log) ∧ (∀ p, .greeted p ∈ next.log → .greeted p ∈ d.log) ∧
        dispatches next.log = dispatches d.log ∧ next.transportError = d.transportError ∧ next.receive = d.receive := by
      rw [same]
      split
      · rcases d.unsubscribe_log ids s with log | log <;> rw [log] <;> simp [dispatches]
      · exact ⟨fun _ => id, fun _ => id, rfl, rfl, rfl⟩
    obtain ⟨handled', greeted', dispatches', flag, receive⟩ := facts
    refine inv.stays (fun p member => handled' p (by simpa using member))
      (fun p member => greeted' p (by simpa using member)) ?_ (by simp [flag]) (by simp [receive])
    rw [dispatches_append, dispatches']
    simp [dispatches]
  | continues at_pc flag =>
    refine ⟨inv.handled, fun p member => Or.inl ?_⟩
    rcases inv.greeted p member with control | ⟨-, noted, -⟩
    · exact control
    · rw [noted] at flag
      cases flag
  | exits => exact inv.stays (fun _ => id) (fun _ => id) rfl id (fun _ => Or.inr rfl)
  | @greeted packet at_pc control =>
    refine ⟨fun p member => inv.handled p (by simpa using member), fun p member => Or.inl ?_⟩
    rcases List.mem_append.mp member with old | new
    · rcases inv.greeted p old with control' | ⟨-, -, stopped⟩
      · exact control'
      · simp [at_pc] at stopped
    · cases List.mem_singleton.mp new
      exact control
  | @rejected packet at_pc =>
    have none := dispatches_of_dealtWith (handled.greeting (by rw [at_pc]; trivial))
    refine ⟨fun p member => inv.handled p (by simpa using member), fun p member => Or.inr ⟨?_, rfl, Or.inl rfl⟩⟩
    rw [dispatches_append, none]
    rfl
  | @handled packet at_pc control =>
    refine ⟨fun p member => ?_, fun p member => Or.inl ?_⟩
    · rcases List.mem_append.mp member with old | new
      · exact inv.handled p old
      · cases List.mem_singleton.mp new
        exact control
    · rcases inv.greeted p (by simpa using member) with control' | ⟨-, -, stopped⟩
      · exact control'
      · simp [at_pc] at stopped
  | @dispatched packet at_pc =>
    refine ⟨fun p member => inv.handled p (by simpa using member), fun p member => Or.inl ?_⟩
    rcases inv.greeted p (by simpa using member) with control' | ⟨-, -, stopped⟩
    · exact control'
    · simp [at_pc] at stopped
  | readied at_pc | timedOut at_pc | reads at_pc | leaves at_pc | failed at_pc | got at_pc | refused at_pc
  | typed at_pc | threw at_pc | sized at_pc | asserted at_pc | received at_pc | crashed at_pc =>
    exact inv.goesOn rfl (by rw [at_pc]; exact ⟨nofun, nofun⟩)

theorem reach_controlInv {ids : IdManager} {C : PacketDemuxer → DemuxerAction → Prop} {d : PacketDemuxer}
    (reach : (system ids).ReachUnder C d) : ControlInv d := by
  refine reach.invariant ⟨nofun, nofun⟩ ?_
  exact fun before inv _ run => (step_effect run).controlInv (reach_handledInv before) inv

/-- No control packet is dispatched. -/
theorem dispatches_control {names : List String} {ids : IdManager} (built : IdManager.ofList names = some ids)
    {C : PacketDemuxer → DemuxerAction → Prop} {d : PacketDemuxer} (reach : (system ids).ReachUnder C d) :
    (dispatches d.log).filter (·.packet.type = IdManager.controlPacket) = [] := by
  refine List.filter_eq_nil_iff.mpr (fun packet member control => ?_)
  obtain ⟨event, place, same⟩ := List.mem_filterMap.mp member
  cases event with
  | dispatched p calls =>
    have here : p = packet := Option.some.inj same
    subst here
    obtain ⟨before, after, split⟩ := List.append_of_mem place
    have now := (reach_dispatchInv built reach).dispatched before p calls ⟨after, by rw [split, List.append_assoc]; rfl⟩
    exact now.user (of_decide_eq_true control)
  | _ => cases same

/-- Only user packets are dispatched. -/
theorem dispatches_users {names : List String} {ids : IdManager} (built : IdManager.ofList names = some ids)
    {C : PacketDemuxer → DemuxerAction → Prop} {d : PacketDemuxer} (reach : (system ids).ReachUnder C d) :
    (dispatches d.log).filter (·.packet.type ≠ IdManager.controlPacket) = dispatches d.log := by
  have none := List.filter_eq_nil_iff.mp (dispatches_control built reach)
  exact List.filter_eq_self.mpr (fun packet member => by simpa using none packet member)

/-- The packets of a type that were dispatched are the first ones among those received. -/
theorem dispatches_sub {names : List String} {ids : IdManager} (built : IdManager.ofList names = some ids)
    {C : PacketDemuxer → DemuxerAction → Prop} {d : PacketDemuxer} (reach : (system ids).ReachUnder C d)
    (type : PacketType) :
    ((dispatches d.log).filter (·.packet.type = type)).map (·.packet) <+: d.received.filter (·.type = type) := by
  have handled := reach_handledInv reach
  have control := reach_controlInv reach
  by_cases user : type = IdManager.controlPacket
  · rw [user, dispatches_control built reach]
    exact List.nil_prefix
  · by_cases good : ∀ p, .greeted p ∈ d.log → p.type = IdManager.controlPacket
    · rw [dealtWith_filter user control.handled good]
      exact handled.sub.filter _
    · simp only [not_forall] at good
      obtain ⟨p, member, other⟩ := good
      obtain ⟨none, -⟩ := (control.greeted p member).resolve_left other
      rw [none]
      exact List.nil_prefix

/-- The callback of a standing subscriber is given the packets of its type, all of them. -/
theorem callsOf_standing {names : List String} {ids : IdManager} (built : IdManager.ofList names = some ids)
    {C : PacketDemuxer → DemuxerAction → Prop} {d : PacketDemuxer} (reach : (system ids).ReachUnder C d)
    {s : PacketSubscriber} (standing : Standing s d.log) :
    callsOf s d.log = (dispatches d.log).filter (·.packet.type = s.type) := by
  have inv := reach_dispatchInv built reach
  rw [callsOf_eq_window s inv.dispatched, standing.window]

theorem Shaken.control {d : PacketDemuxer} (shaken : d.Shaken) {p : ComPacket} (first : d.received.head? = some p) :
    p.type = IdManager.controlPacket := by
  obtain ⟨q, head, hello⟩ := shaken
  cases head.symm.trans first
  exact hello.1

/-- What is taken as the handshake is the first packet received. -/
theorem reach_greeted {ids : IdManager} {C : PacketDemuxer → DemuxerAction → Prop} {d : PacketDemuxer}
    (reach : (system ids).ReachUnder C d) : ∀ p, .greeted p ∈ d.log → d.received.head? = some p := by
  refine reach.invariant (I := fun d => ∀ p, .greeted p ∈ d.log → d.received.head? = some p) nofun ?_
  intro d a d' before inv _ run p member
  have effect := step_effect run
  obtain ⟨more, grown⟩ := effect.received_grows
  suffices first : d.received.head? = some p by rw [← grown, List.head?_append, first]; rfl
  rcases effect.greeted_cases member with old | now
  · exact inv p old
  · rw [(reach_handledInv before).received_eq (by rw [now]; trivial), now]
    rfl

/-- In every state of every run: a callback was invoked for the packets of its type whose dispatch fell between its
subscription and its end, once each and in their order; a packet that was dispatched is no control packet and went to
all subscribers of its type in the order of subscription; only control packets are handled without a dispatch, and
behind a Hello message every user packet received was dispatched, in the order of arrival, but for the one in hand; the
packets dealt with are those received, in their order; and no callback was invoked after the destructor of the handle
that owned it had returned. -/
theorem exact_dispatch (names : List String) (ids : IdManager) (built : IdManager.ofList names = some ids)
    (d : PacketDemuxer) (reach : (system ids).Reach d) :
    (∀ s, callsOf s d.log = window s [] d.log) ∧
    (∀ before packet calls after, d.log = before ++ .dispatched packet calls :: after →
      packet.packet.type ≠ IdManager.controlPacket ∧ calls = registered packet.packet.type before) ∧
    (∀ packet, .handled packet ∈ d.log → packet.packet.type = IdManager.controlPacket) ∧
    (d.receive ≠ .aborted → d.Shaken → (dispatches d.log).map (·.packet) ++
      d.receive.inHand.filter (·.type ≠ IdManager.controlPacket) =
        d.received.filter (·.type ≠ IdManager.controlPacket)) ∧
    (d.receive ≠ .aborted → dealtWith d.log ++ d.receive.inHand = d.received) ∧
    (∀ before s after, d.log = before ++ .destructed s :: after → callsOf s after = []) := by
  have inv := reach_dispatchInv built reach
  have handled := reach_handledInv reach
  have control := (reach_controlInv reach).handled
  refine ⟨fun s => callsOf_eq_window s inv.dispatched, ?_, control, fun alive shaken => ?_, handled.all, ?_⟩
  · intro before packet calls after log
    have now := inv.dispatched before packet calls ⟨after, by rw [log, List.append_assoc]; rfl⟩
    exact ⟨now.user, now.all⟩
  · have greeted : ∀ p, .greeted p ∈ d.log → p.type = IdManager.controlPacket := fun p member =>
      shaken.control (reach_greeted reach p member)
    rw [← handled.all alive, List.filter_append]
    congr 1
    rw [← dispatches_users built reach]
    exact dealtWith_users (fun p => decide (p.type ≠ IdManager.controlPacket)) (fun _ same => by simp [same])
      control greeted
  · intro before s after log
    by_contra called
    obtain ⟨packet, member⟩ := List.exists_mem_of_ne_nil _ called
    obtain ⟨first, calls, rest, rfl, within⟩ := mem_callsOf member
    have now := inv.dispatched (before ++ .destructed s :: first) packet calls ⟨rest, by rw [log]; simp⟩
    rw [now.all, mem_registered] at within
    exact within.2.2 (now.left s (by simp))

/-- Two subscribers, a Hello message and two packets, between which the first one leaves. -/
def leavesBetween : List DemuxerAction :=
  [.subscribe 0 "A", .subscribe 1 "A"] ++
  .arrive ControlMessage.hello.packet.frame :: frameActions ControlMessage.hello.packet ++ [.receive, .receive] ++
  .arrive (ComPacket.frame ⟨2, [7]⟩) :: frameActions ⟨2, [7]⟩ ++ [.receive, .receive, .destruct 0] ++
  .arrive (ComPacket.frame ⟨2, []⟩) :: frameActions ⟨2, []⟩ ++ [.receive]

theorem exact_dispatch_leavesBetween : ∃ (ids : IdManager) (d : PacketDemuxer), IdManager.ofList ["A"] = some ids ∧
    d.log = [.subscribed ⟨0, 2⟩, .subscribed ⟨1, 2⟩, .greeted ControlMessage.hello.packet,
      .dispatched ⟨2, 2, [7]⟩ [⟨0, 2⟩, ⟨1, 2⟩], .unsubscribed ⟨0, 2⟩, .destructed ⟨0, 2⟩,
      .dispatched ⟨3, 2, []⟩ [⟨1, 2⟩]] ∧
    (∀ s, callsOf s d.log = window s [] d.log) ∧
    (∀ before packet calls after, d.log = before ++ .dispatched packet calls :: after →
      packet.packet.type ≠ IdManager.controlPacket ∧ calls = registered packet.packet.type before) ∧
    (∀ packet, .handled packet ∈ d.log → packet.packet.type = IdManager.controlPacket) ∧
    (d.receive ≠ .aborted → d.Shaken → (dispatches d.log).map (·.packet) ++
      d.receive.inHand.filter (·.type ≠ IdManager.controlPacket) =
        d.received.filter (·.type ≠ IdManager.controlPacket)) ∧
    (d.receive ≠ .aborted → dealtWith d.log ++ d.receive.inHand = d.received) ∧
    (∀ before s after, d.log = before ++ .destructed s :: after → callsOf s after = []) := by
  obtain ⟨ids, built, d, reach, log⟩ : ∃ ids, IdManager.ofList ["A"] = some ids ∧ ∃ d, (system ids).Reach d ∧
      PacketDemuxer.log d = [.subscribed ⟨0, 2⟩, .subscribed ⟨1, 2⟩, .greeted ControlMessage.hello.packet,
        .dispatched ⟨2, 2, [7]⟩ [⟨0, 2⟩, ⟨1, 2⟩], .unsubscribed ⟨0, 2⟩, .destructed ⟨0, 2⟩,
        .dispatched ⟨3, 2, []⟩ [⟨1, 2⟩]] :=
    ⟨_, rfl, TransitionSystem.ReachUnder.start.computed _ leavesBetween (fun _ _ _ => trivial) (by decide)⟩
  exact ⟨ids, d, built, log, exact_dispatch ["A"] ids built d reach⟩

end PacketDemuxer

end PacketComms
