import PacketComms.Sync.Channel

namespace PacketComms

namespace Role

@[simp] theorem peer_peer (r : Role) : r.peer.peer = r := by
  cases r <;> rfl

@[simp] theorem peer_ne (r : Role) : r.peer ≠ r := by
  cases r <;> decide

@[simp] theorem ne_peer (r : Role) : r ≠ r.peer := r.peer_ne.symm

theorem eq_or_peer (r other : Role) : other = r ∨ other = r.peer := by
  cases r <;> cases other <;> simp [peer]

end Role

namespace SyncSide

/-- The rounds of a side, where `post` is its place in `emplacePacket`. -/
def party (r : Role) (post : PostPc) (s : SyncSide) : Party where
  entered := s.entered
  listened := if s.Subscribed then s.done + 1 else s.done
  released := s.released
  answered :=
    match r with
    | .server => 0
    | .client => if s.pc = .leaving ∨ s.pc = .emplacing ∧ post.queued then s.done + 1 else s.done
  left := s.done

/-- The flag is what the place in the call says, and only there `emplacePacket` is being called. -/
structure Placed (r : Role) (post : PostPc) (s : SyncSide) : Prop where
  idle : s.pc ≠ .emplacing → post = .idle
  running : s.pc ≠ .terminated
  unset : s.pc = .subscribing → s.ready = false
  set : s.pc = .leaving → s.ready = true
  answers : r = .client → s.pc = .serialising ∨ s.pc = .emplacing → s.ready = true

/-- The subscription of the call is the only one of its type. -/
structure Listens (type : PacketType) (s : SyncSide) (d : PacketDemuxer) : Prop where
  alive : d.destructor = .notCalled
  subscribed : s.Subscribed → ∃ u, d.handles 0 = some (some u) ∧ u.type = type ∧ registered type d.log = [u]
  unsubscribed : ¬ s.Subscribed → d.handles 0 = none ∧ registered type d.log = []

end SyncSide

/-- The packets of a type that were dispatched. -/
def dispatchedOf (type : PacketType) (d : PacketDemuxer) : List ComPacket :=
  ((dispatches d.log).filter (·.packet.type = type)).map (·.packet)

/-- A side with its muxer and its demuxer, and a party with the channel that it sends by and
the one that it hears. -/
structure SideRel (readyMsgStr : String) (type : PacketType) (r : Role) (s : SyncSide) (m : PacketMuxer)
    (d : PacketDemuxer) (party : Party) (sends hears : Fifo ComPacket) : Prop where
  placed : s.Placed r (m.users 0)
  listens : s.Listens type d
  party : party = s.party r (m.users 0)
  posted : sends.posted = (postedUnder readyMsgStr m.log).map (·.packet)
  taken : hears.taken = dispatchedOf type d

/-- The code's synchronisation, seen as rounds. -/
def Related (readyMsgStr : String) (type : PacketType) (p : SyncPair) (t : Rounds ComPacket) : Prop :=
  ∀ r, SideRel readyMsgStr type r (p.sides r) (p.links r).muxer (p.links r.peer).demuxer (t.party r) (t.channel r)
    (t.channel r.peer)

/-- What the callback does to the flag: it is set where the call has its subscription. -/
theorem SyncSide.Listens.callback {archive : BoolArchive} {type : PacketType} {s : SyncSide} {d : PacketDemuxer}
    (listens : s.Listens type d) (packet : SharedPacket)
    (decodes : packet.packet.type = type → ∃ b, archive.decode packet.packet.data = some b) :
    s.callback archive (d.handles 0) (.dispatched packet (registered packet.packet.type d.log)) =
      if packet.packet.type = type ∧ s.Subscribed then { s with ready := true } else s := by
  by_cases subscribed : s.Subscribed
  · obtain ⟨u, handle, typed, single⟩ := listens.subscribed subscribed
    by_cases own : packet.packet.type = type
    · obtain ⟨b, decoded⟩ := decodes own
      rw [own]
      simp [SyncSide.callback, handle, single, decoded, subscribed]
    · have out : u ∉ registered packet.packet.type d.log := fun member =>
        own ((mem_registered.mp member).1.symm.trans typed)
      simp [SyncSide.callback, handle, out, own]
  · obtain ⟨handle, -⟩ := listens.unsubscribed subscribed
    simp [SyncSide.callback, handle, subscribed]

/-- The flag is only ever set where the call may find it set. -/
theorem SyncSide.Placed.callback {r : Role} {post : PostPc} {s : SyncSide} (placed : s.Placed r post) :
    (if s.Subscribed then { s with ready := true } else s : SyncSide).Placed r post := by
  split
  · rename_i subscribed
    exact ⟨placed.idle, placed.running, fun early => absurd early subscribed.2, fun _ => rfl, fun _ _ => rfl⟩
  · exact placed

theorem SyncSide.callback_subscribed (s : SyncSide) :
    (if s.Subscribed then { s with ready := true } else s : SyncSide).Subscribed ↔ s.Subscribed := by
  split <;> exact Iff.rfl

/-- A ready message arrives, and the flag is set. -/
theorem SyncSide.party_receive (s : SyncSide) (r : Role) (post : PostPc) :
    (s.party r post).receive = (if s.Subscribed then { s with ready := true } else s : SyncSide).party r post := by
  by_cases subscribed : s.Subscribed
  · have stays : ({ s with ready := true } : SyncSide).Subscribed := subscribed
    cases ready : s.ready <;>
      simp [Party.receive, SyncSide.party, SyncSide.released, subscribed, stays, ready, SyncSide.entered]
  · simp [Party.receive, SyncSide.party, SyncSide.released, subscribed]

/-- The demuxer's part, where neither the handle nor the subscribers change. -/
theorem SyncSide.Listens.keep {type : PacketType} {s s' : SyncSide} {d d' : PacketDemuxer} (listens : s.Listens type d)
    (same : s'.Subscribed ↔ s.Subscribed) (handles : d'.handles = d.handles) (destructor : d'.destructor = d.destructor)
    (subscribers : registered type d'.log = registered type d.log) : s'.Listens type d' := by
  refine ⟨destructor.trans listens.alive, ?_, ?_⟩
  · rw [same, handles, subscribers]
    exact listens.subscribed
  · rw [same, handles, subscribers]
    exact listens.unsubscribed

/-- A step that this side does not see. -/
theorem SideRel.unseen {readyMsgStr : String} {type : PacketType} {r : Role} {s : SyncSide} {m m' : PacketMuxer}
    {d d' : PacketDemuxer} {party : Party} {sends hears : Fifo ComPacket}
    (rel : SideRel readyMsgStr type r s m d party sends hears) (users : m'.users = m.users)
    (posts : postedUnder readyMsgStr m'.log = postedUnder readyMsgStr m.log) (handles : d'.handles = d.handles)
    (destructor : d'.destructor = d.destructor) (subscribers : registered type d'.log = registered type d.log)
    (packets : dispatchedOf type d' = dispatchedOf type d) :
    SideRel readyMsgStr type r s m' d' party sends hears := by
  refine ⟨?_, rel.listens.keep Iff.rfl handles destructor subscribers, ?_, ?_, ?_⟩
  · rw [users]
    exact rel.placed
  · rw [users]
    exact rel.party
  · rw [posts]
    exact rel.posted
  · rw [packets]
    exact rel.taken

namespace SyncPair

section

variable {names : List String} {ids : IdManager} {archive : BoolArchive} {readyMsgStr : String}
variable {type : PacketType} {k : Nat}

theorem linkStep_cases {p p' : SyncPair} {r : Role} {action : LinkAction}
    (run : p.linkStep ids archive r action = some p') :
    ∃ l, Link.step ids (p.links r) action = some l ∧ p'.links = Function.update p.links r l ∧
      p'.sides = Function.update p.sides r.peer
        ((l.demuxer.log.drop (p.links r).demuxer.log.length).foldl
          (SyncSide.callback archive (l.demuxer.handles 0)) (p.sides r.peer)) := by
  obtain ⟨l, moved, rfl⟩ := Option.map_eq_some_iff.mp run
  exact ⟨l, moved, rfl, rfl⟩

/-- A step moves one link, if any. -/
theorem step_links {p p' : SyncPair} {action : SyncAction} (met : Steady p action)
    (run : step ids archive readyMsgStr k p action = some p') :
    p'.links = p.links ∨ ∃ r a l, Link.step ids (p.links r) a = some l ∧
      Link.Reliable (ReadyPost archive readyMsgStr) (p.links r) a ∧ p'.links = Function.update p.links r l := by
  cases action with
  | link r a =>
    simp only [step, Option.ite_none_right_eq_some] at run
    obtain ⟨internal, run⟩ := run
    obtain ⟨l, moved, links, -⟩ := linkStep_cases run
    refine Or.inr ⟨r, a, l, moved, ?_, links⟩
    cases a with
    | muxer a =>
      cases a with
      | write answer =>
        cases answer with
        | error => cases met
        | count n => exact ⟨trivial, trivial⟩
      | post => cases internal
      | _ => exact ⟨trivial, trivial⟩
    | demuxer a =>
      cases a with
      | read answer =>
        cases answer with
        | error => cases met
        | count n => trivial
      | _ => trivial
  | side r =>
    simp only [step, sideStep] at run
    split at run
    · simp only [Option.ite_none_right_eq_some, Option.some.injEq] at run
      obtain ⟨-, rfl⟩ := run
      exact Or.inl rfl
    · split at run
      · cases Option.some.inj run
        exact Or.inl rfl
      · obtain ⟨middle, moved, rfl⟩ := Option.map_eq_some_iff.mp run
        obtain ⟨l, moved, links, -⟩ := linkStep_cases moved
        exact Or.inr ⟨_, _, l, moved, trivial, links⟩
    · cases Option.some.inj run
      exact Or.inl rfl
    · obtain ⟨middle, moved, rfl⟩ := Option.map_eq_some_iff.mp run
      obtain ⟨l, moved, links, -⟩ := linkStep_cases moved
      exact Or.inr ⟨_, _, l, moved, ⟨trivial, rfl, rfl⟩, links⟩
    · split at run
      · cases Option.some.inj run
        exact Or.inl rfl
      · obtain ⟨l, moved, links, -⟩ := linkStep_cases run
        exact Or.inr ⟨_, _, l, moved, ⟨trivial, trivial⟩, links⟩
    · cases Option.some.inj run
      exact Or.inl rfl
    · obtain ⟨middle, moved, rfl⟩ := Option.map_eq_some_iff.mp run
      obtain ⟨l, moved, links, -⟩ := linkStep_cases moved
      exact Or.inr ⟨_, _, l, moved, trivial, links⟩
    · cases run

/-- Each link is in a state of its own runs. -/
theorem reach_links {C : SyncPair → SyncAction → Prop} (steady : ∀ p action, C p action → Steady p action)
    {p : SyncPair} (reach : (system ids archive readyMsgStr k).ReachUnder C p) (r : Role) :
    (Link.system ids).ReachUnder (Link.Reliable (ReadyPost archive readyMsgStr)) (p.links r) := by
  induction reach with
  | start => exact .start
  | next _ met run ih =>
    rcases step_links (steady _ _ met) run with same | ⟨r', a, l, moved, reliable, links⟩
    · rw [same]
      exact ih
    · rw [links]
      by_cases own : r = r'
      · subst own
        rw [Function.update_self]
        exact .next ih reliable moved
      · rw [Function.update_of_ne own]
        exact ih

/-- What the send thread and the transport do is not seen. -/
theorem related_muxer {p p' : SyncPair} {t : Rounds ComPacket} {r : Role} {action : MuxerAction}
    (rel : Related readyMsgStr type p t)
    (post : PacketMuxer.PostInv (ReadyPost archive readyMsgStr) ids (p.links r).muxer)
    (user : readyMsgStr ≠ IdManager.controlString) (internal : (LinkAction.muxer action).internal = true)
    (run : p.linkStep ids archive r (.muxer action) = some p') : Related readyMsgStr type p' t := by
  obtain ⟨l, moved, links, sides⟩ := linkStep_cases run
  obtain ⟨step, log, handles, destructor⟩ := Link.step_muxer moved
  obtain ⟨users, posts⟩ := (PacketMuxer.step_effect step).internal post internal user
  rw [log, List.drop_length, List.foldl_nil, Function.update_eq_self] at sides
  intro r'
  rw [sides, links]
  rcases r.eq_or_peer r' with rfl | rfl
  · simpa using (rel r').unseen users posts rfl rfl rfl rfl
  · have other : SideRel readyMsgStr type r.peer (p.sides r.peer) (p.links r.peer).muxer l.demuxer
        (t.party r.peer) (t.channel r.peer) (t.channel r.peer.peer) :=
      (rel r.peer).unseen rfl rfl (by simpa using handles) (by simpa using destructor) (by simp [log])
        (by simp [dispatchedOf, log])
    simpa using other

/-- What the receive thread and the transport do is seen when a ready message is dispatched. -/
theorem related_demuxer {p p' : SyncPair} {t : Rounds ComPacket} {r : Role} {action : DemuxerAction}
    (rel : Related readyMsgStr type p t) (inv : PacketDemuxer.DispatchInv (p.links r).demuxer)
    (ready : ∀ packet ∈ postedUnder readyMsgStr (p.links r).muxer.log, packet.packet.data = archive.encode true)
    (delivered : ∀ l, Link.step ids (p.links r) (.demuxer action) = some l →
      dispatchedOf type l.demuxer <+: (postedUnder readyMsgStr l.muxer.log).map (·.packet))
    (internal : (LinkAction.demuxer action).internal = true)
    (run : p.linkStep ids archive r (.demuxer action) = some p') :
    Related readyMsgStr type p' t ∨ (LinkAction.demuxer action).delivers type (p.links r) = true ∧
      ∃ t', Rounds.step k t (.deliver r) = some t' ∧ Related readyMsgStr type p' t' := by
  obtain ⟨l, moved, links, sides⟩ := linkStep_cases run
  obtain ⟨step, muxer⟩ := Link.step_demuxer moved
  have peer := rel r.peer
  rw [Role.peer_peer] at peer
  have alive : (p.links r).demuxer.destructor ≠ .returned := by
    rw [peer.listens.alive]
    decide
  obtain ⟨handles, destructor, grows⟩ := (PacketDemuxer.step_effect step).internal inv alive internal
  -- where no callback of the type is made, neither side sees the step
  have quiet (kept : p'.sides = p.sides)
      (subscribers : registered type l.demuxer.log = registered type (p.links r).demuxer.log)
      (packets : dispatchedOf type l.demuxer = dispatchedOf type (p.links r).demuxer) :
      Related readyMsgStr type p' t := by
    intro r'
    rw [kept, links]
    rcases r.eq_or_peer r' with rfl | rfl
    · simpa [muxer] using rel r'
    · have other := peer.unseen rfl rfl handles destructor subscribers packets
      simpa using other
  cases grows with
  | same log =>
    rw [log, List.drop_length, List.foldl_nil, Function.update_eq_self] at sides
    exact Or.inl (quiet sides (by rw [log]) (by rw [dispatchedOf, log]; rfl))
  | @quiet event still log =>
    obtain ⟨none, stays, kept⟩ := still.cases
    have unset : (p.sides r.peer).callback archive (l.demuxer.handles 0) event = p.sides r.peer := by
      rcases still with ⟨packet, rfl⟩ | ⟨packet, rfl⟩ <;> rfl
    rw [log, List.drop_left, List.foldl_cons, List.foldl_nil, unset, Function.update_eq_self] at sides
    exact Or.inl (quiet sides (by rw [log, registered_other none stays]) (by rw [dispatchedOf, log, kept]; rfl))
  | @dispatched packet receives at_pc log =>
    have others : registered type l.demuxer.log = registered type (p.links r).demuxer.log := by
      rw [log, registered_other rfl (by simp)]
    have grown : dispatchedOf type l.demuxer =
        dispatchedOf type (p.links r).demuxer ++ (if packet.type = type then [packet] else []) := by
      by_cases own : packet.type = type <;> simp [dispatchedOf, log, dispatches, own]
    have next := delivered l moved
    have decodes : packet.type = type → ∃ b, archive.decode packet.data = some b := by
      intro own
      rw [grown, if_pos own] at next
      obtain ⟨shared, member, rfl⟩ := List.mem_map.mp (next.subset (List.mem_append_right _ List.mem_cons_self))
      rw [muxer] at member
      rw [ready shared member]
      exact ⟨true, archive.faithful true⟩
    have called := peer.listens.callback ⟨(p.links r).demuxer.nextAddr, packet⟩ decodes
    rw [log, List.drop_left, List.foldl_cons, List.foldl_nil, handles, called] at sides
    by_cases own : packet.type = type
    · refine Or.inr ⟨by simp [receives, LinkAction.delivers, at_pc, own], ?_⟩
      rw [if_pos own] at grown
      rw [grown, muxer, ← (rel r).posted, ← peer.taken] at next
      obtain ⟨q, took, posted, taken⟩ := Fifo.take_next next
      refine ⟨(t.setChannel r q).setParty r.peer (t.party r.peer).receive, by simp [Rounds.step, took], ?_⟩
      intro r'
      rw [sides, links]
      rcases r.eq_or_peer r' with rfl | rfl
      · obtain ⟨placed, listens, party, posts, heard⟩ := rel r'
        exact ⟨by simpa [muxer] using placed, by simpa using listens, by simpa [muxer] using party,
          by simpa [muxer, posted] using posts, by simpa using heard⟩
      · obtain ⟨placed, listens, party, posts, heard⟩ := peer
        simp only [own, true_and, Function.update_self, Role.peer_peer, Function.update_of_ne r.peer_ne,
          Rounds.party_setParty, Rounds.channel_setParty, Rounds.channel_setChannel]
        refine ⟨placed.callback, listens.keep (p.sides r.peer).callback_subscribed handles destructor others, ?_,
          posts, ?_⟩
        · rw [party]
          exact (p.sides r.peer).party_receive r.peer _
        · rw [taken, heard, grown]
    · refine Or.inl (quiet ?_ others (by simp [grown, own]))
      rw [sides]
      simp [own]

end

end SyncPair

end PacketComms
