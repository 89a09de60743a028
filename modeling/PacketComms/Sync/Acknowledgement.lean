import PacketComms.Sync.Simulation

namespace PacketComms

/-- What the callbacks of one step do to the side that subscribes: they may set the flag, which
takes a dispatch to the subscriber in the handle, or end in an exception. -/
structure SyncSide.Called (handle : Option SubscriberPtr) (events : List DemuxerEvent) (s s' : SyncSide) : Prop where
  done : s'.done = s.done
  pc : s'.pc = s.pc ∨ s'.pc = .terminated
  kept : s.ready = true → s'.ready = true
  set : s'.ready = true → s.ready = true ∨
    ∃ packet calls u, .dispatched packet calls ∈ events ∧ handle = some (some u) ∧ u ∈ calls

theorem SyncSide.callback_called (archive : BoolArchive) (handle : Option SubscriberPtr) (s : SyncSide)
    (event : DemuxerEvent) : Called handle [event] s (s.callback archive handle event) := by
  have unseen : Called handle [event] s s := ⟨rfl, Or.inl rfl, id, Or.inl⟩
  unfold callback
  split
  · rename_i packet calls
    split
    · rename_i u
      split
      · rename_i member
        split
        · exact ⟨rfl, Or.inl rfl, fun _ => rfl, fun _ => Or.inr ⟨packet, calls, u, List.mem_cons_self, rfl, member⟩⟩
        · exact ⟨rfl, Or.inr rfl, id, Or.inl⟩
      · exact unseen
    · exact unseen
  · exact unseen

theorem SyncSide.callbacks_called (archive : BoolArchive) (handle : Option SubscriberPtr) (events : List DemuxerEvent)
    (s : SyncSide) : Called handle events s (events.foldl (SyncSide.callback archive handle) s) := by
  induction events generalizing s with
  | nil => exact ⟨rfl, Or.inl rfl, id, Or.inl⟩
  | cons event events ih =>
    have first := s.callback_called archive handle event
    have rest := ih (s.callback archive handle event)
    refine ⟨rest.done.trans first.done, ?_, fun before => rest.kept (first.kept before), fun now => ?_⟩
    · rcases rest.pc with same | ended
      · exact first.pc.imp same.trans same.trans
      · exact Or.inr ended
    · rcases rest.set now with early | ⟨packet, calls, u, member, called⟩
      · rcases first.set early with before | ⟨packet, calls, u, member, called⟩
        · exact Or.inl before
        · exact Or.inr ⟨packet, calls, u, List.mem_cons.mpr (Or.inl (List.mem_singleton.mp member)), called⟩
      · exact Or.inr ⟨packet, calls, u, List.mem_cons_of_mem _ member, called⟩

/-- The flag is set, or a call has returned. -/
def SyncSide.Passed (s : SyncSide) : Prop := s.ready = true ∨ 0 < s.done

/-- The flag of a call that has returned was set. -/
def SyncSide.Settled (s : SyncSide) : Prop := s.pc = .outside → 0 < s.done → s.ready = true

theorem SyncSide.Called.settled {handle : Option SubscriberPtr} {events : List DemuxerEvent} {s s' : SyncSide}
    (called : Called handle events s s') (settled : s.Settled) : s'.Settled := by
  intro outside past
  rw [called.done] at past
  rcases called.pc with same | ended
  · exact called.kept (settled (same ▸ outside) past)
  · rw [ended] at outside
    cases outside

namespace SyncPair

/-- A ready message was dispatched to a subscriber of the client's demuxer, where only the
calls of the client subscribe. -/
def Told (type : PacketType) (p : SyncPair) : Prop :=
  ∃ packet calls, .dispatched packet calls ∈ (p.links .server).demuxer.log ∧ packet.packet.type = type ∧ calls ≠ []

section

variable {names : List String} {ids : IdManager} {archive : BoolArchive} {readyMsgStr : String}
variable {type : PacketType} {k : Nat}

theorem Told.grows {p p' : SyncPair} (told : Told type p)
    (log : (p.links .server).demuxer.log <+: (p'.links .server).demuxer.log) : Told type p' := by
  obtain ⟨packet, calls, member, rest⟩ := told
  exact ⟨packet, calls, log.subset member, rest⟩

/-- A step after which the client was released had told it, or the client was released before. -/
def Announced (type : PacketType) (p p' : SyncPair) : Prop :=
  (p.links .server).demuxer.log <+: (p'.links .server).demuxer.log ∧
  ((p'.sides .client).Passed → (p.sides .client).Passed ∨ Told type p')

theorem Announced.refl (p : SyncPair) : Announced type p p := ⟨List.prefix_rfl, Or.inl⟩

/-- One side moves as well. -/
theorem Announced.setSide {p p' : SyncPair} {r : Role} {s : SyncSide} (step : Announced type p p')
    (same : r = .client → s.Passed → (p.sides .client).Passed) : Announced type p (p'.setSide r s) := by
  obtain ⟨log, passed⟩ := step
  refine ⟨log, fun now => ?_⟩
  cases r with
  | client => exact Or.inl (same rfl (by simpa [SyncPair.setSide] using now))
  | server => exact passed (by simpa [SyncPair.setSide] using now)

theorem linkStep_announced {p p' : SyncPair} {r : Role} {action : LinkAction}
    (dispatch : PacketDemuxer.DispatchInv (p'.links .server).demuxer)
    (handle : ∀ u, (p'.links .server).demuxer.handles 0 = some (some u) → u.type = type)
    (run : p.linkStep ids archive r action = some p') : Announced type p p' := by
  obtain ⟨l, moved, links, sides⟩ := linkStep_cases run
  cases r with
  | client =>
    have kept : p'.sides .client = p.sides .client := by
      rw [sides]
      simp [Role.peer]
    exact ⟨by simp [links], fun now => Or.inl (kept ▸ now)⟩
  | server =>
    have called := (p.sides .client).callbacks_called archive (l.demuxer.handles 0)
      (l.demuxer.log.drop (p.links .server).demuxer.log.length)
    have there : p'.links .server = l := by rw [links, Function.update_self]
    rw [there] at dispatch handle
    refine ⟨?_, fun now => ?_⟩
    · rw [there]
      cases action with
      | muxer action => rw [(Link.step_muxer moved).2.1]
      | demuxer action => exact (PacketDemuxer.step_effect (Link.step_demuxer moved).1).log_grows
    · rw [sides] at now
      rcases now with set | past
      · rcases called.set set with before | ⟨packet, calls, u, member, held, called⟩
        · exact Or.inl (Or.inl before)
        · have logged := List.mem_of_mem_drop member
          obtain ⟨before, after, split⟩ := List.append_of_mem logged
          have place := dispatch.dispatched before packet calls ⟨after, by rw [split]; simp⟩
          rw [place.all] at called
          have typed : u.type = packet.packet.type := (mem_registered.mp called).1
          refine Or.inr ⟨packet, calls, by rw [there]; exact logged, typed.symm.trans (handle u held), ?_⟩
          rw [place.all]
          exact List.ne_nil_of_mem called
      · exact Or.inl (Or.inr (called.done ▸ past))

theorem sideStep_announced {p p' : SyncPair} {r : Role}
    (dispatch : PacketDemuxer.DispatchInv (p'.links .server).demuxer)
    (handle : ∀ u, (p'.links .server).demuxer.handles 0 = some (some u) → u.type = type)
    (leaves : (p.sides .client).pc = .leaving → (p.sides .client).ready = true)
    (run : p.sideStep ids archive readyMsgStr k r = some p') : Announced type p p' := by
  cases at_pc : (p.sides r).pc <;> simp only [sideStep, at_pc] at run
  case outside =>
    simp only [Option.ite_none_right_eq_some, Option.some.injEq] at run
    obtain ⟨-, rfl⟩ := run
    refine (Announced.refl p).setSide ?_
    rintro rfl (set | past)
    · cases set
    · exact Or.inr past
  case subscribing =>
    split at run
    · cases Option.some.inj run
      exact (Announced.refl p).setSide (by rintro rfl; exact id)
    · obtain ⟨middle, moved, rfl⟩ := Option.map_eq_some_iff.mp run
      have announced : Announced type p middle := linkStep_announced dispatch handle moved
      exact announced.setSide (by rintro rfl; exact id)
  case testing | sleeping =>
    cases Option.some.inj run
    exact (Announced.refl p).setSide (by rintro rfl; exact id)
  case serialising =>
    obtain ⟨middle, moved, rfl⟩ := Option.map_eq_some_iff.mp run
    have announced : Announced type p middle := linkStep_announced dispatch handle moved
    exact announced.setSide (by rintro rfl; exact id)
  case emplacing =>
    split at run
    · cases Option.some.inj run
      exact (Announced.refl p).setSide (by rintro rfl; exact id)
    · exact linkStep_announced dispatch handle run
  case leaving =>
    obtain ⟨middle, moved, rfl⟩ := Option.map_eq_some_iff.mp run
    have announced : Announced type p middle := linkStep_announced dispatch handle moved
    refine announced.setSide ?_
    rintro rfl -
    exact Or.inl (leaves at_pc)
  case terminated => cases run

theorem linkStep_settled {p p' : SyncPair} {r : Role} {action : LinkAction} (settled : ∀ r, (p.sides r).Settled)
    (run : p.linkStep ids archive r action = some p') (r' : Role) : (p'.sides r').Settled := by
  obtain ⟨l, -, -, sides⟩ := linkStep_cases run
  rw [sides]
  by_cases same : r' = r.peer
  · subst same
    rw [Function.update_self]
    exact ((p.sides r.peer).callbacks_called _ _ _).settled (settled r.peer)
  · rw [Function.update_of_ne same]
    exact settled r'

theorem setSide_settled {p : SyncPair} {r : Role} {s : SyncSide} (settled : ∀ r, (p.sides r).Settled)
    (moved : s.Settled) (r' : Role) : ((p.setSide r s).sides r').Settled := by
  by_cases same : r' = r
  · subst same
    simpa [setSide] using moved
  · simpa [setSide, same] using settled r'

theorem sideStep_settled {p p' : SyncPair} {r : Role} (settled : ∀ r, (p.sides r).Settled)
    (leaves : (p.sides r).pc = .leaving → (p.sides r).ready = true)
    (run : p.sideStep ids archive readyMsgStr k r = some p') : ∀ r', (p'.sides r').Settled := by
  cases at_pc : (p.sides r).pc <;> simp only [sideStep, at_pc] at run
  case outside =>
    simp only [Option.ite_none_right_eq_some, Option.some.injEq] at run
    obtain ⟨-, rfl⟩ := run
    exact setSide_settled settled (by simp [SyncSide.Settled])
  case subscribing =>
    split at run
    · cases Option.some.inj run
      exact setSide_settled settled (by simp [SyncSide.Settled])
    · obtain ⟨middle, moved, rfl⟩ := Option.map_eq_some_iff.mp run
      exact setSide_settled (linkStep_settled settled moved) (by simp [SyncSide.Settled])
  case testing =>
    cases Option.some.inj run
    refine setSide_settled settled ?_
    cases r <;> cases (p.sides _).ready <;> simp [SyncSide.Settled, Role.code, syncWithClient, syncWithServer]
  case serialising =>
    obtain ⟨middle, moved, rfl⟩ := Option.map_eq_some_iff.mp run
    exact setSide_settled (linkStep_settled settled moved) (by simp [SyncSide.Settled])
  case emplacing =>
    split at run
    · cases Option.some.inj run
      refine setSide_settled settled ?_
      cases r <;> simp [SyncSide.Settled, Role.code, syncWithClient, syncWithServer]
    · exact linkStep_settled settled run
  case sleeping =>
    cases Option.some.inj run
    exact setSide_settled settled (by simp [SyncSide.Settled])
  case leaving =>
    obtain ⟨middle, moved, rfl⟩ := Option.map_eq_some_iff.mp run
    exact setSide_settled (linkStep_settled settled moved) (fun _ _ => leaves at_pc)
  case terminated => cases run

theorem reach_settled (built : IdManager.ofList names = some ids) (listed : readyMsgStr ∈ names)
    (typed : ids.toId readyMsgStr = some type) {p : SyncPair}
    (reach : (system ids archive readyMsgStr k).ReachUnder Steady p) (r : Role) : (p.sides r).Settled := by
  revert r
  refine reach.invariant (I := fun p => ∀ r, (p.sides r).Settled) (by simp [system, SyncSide.Settled]) ?_
  intro p action p' before settled met run
  obtain ⟨t, -, related⟩ := (refines_rounds built listed typed).reach before
  cases action with
  | link r action =>
    simp only [system, step, Option.ite_none_right_eq_some] at run
    exact linkStep_settled settled run.2
  | side r => exact sideStep_settled settled (related r).placed.set run

/-- The client is released by messages that were dispatched to it. -/
theorem reach_told (built : IdManager.ofList names = some ids) (listed : readyMsgStr ∈ names)
    (typed : ids.toId readyMsgStr = some type) {p : SyncPair}
    (reach : (system ids archive readyMsgStr k).ReachUnder Steady p) (passed : (p.sides .client).Passed) :
    Told type p := by
  revert passed
  refine reach.invariant (I := fun p => (p.sides .client).Passed → Told type p) (by simp [system, SyncSide.Passed]) ?_
  intro p action p' before told met run passed
  have after := before.next met run
  obtain ⟨t, -, related⟩ := (refines_rounds built listed typed).reach before
  obtain ⟨t', -, related'⟩ := (refines_rounds built listed typed).reach after
  have dispatch := PacketDemuxer.reach_dispatchInv built
    (Link.reach_sides (reach_links (fun _ _ met => met) after .server)).2
  have handle : ∀ u, (p'.links .server).demuxer.handles 0 = some (some u) → u.type = type := by
    intro u held
    have listens : (p'.sides .client).Listens type (p'.links .server).demuxer := (related' .client).listens
    by_cases subscribed : (p'.sides .client).Subscribed
    · obtain ⟨v, held', type', -⟩ := listens.subscribed subscribed
      rw [held] at held'
      cases held'
      exact type'
    · rw [(listens.unsubscribed subscribed).1] at held
      cases held
  have announced : Announced type p p' := by
    cases action with
    | link r action =>
      simp only [system, step, Option.ite_none_right_eq_some] at run
      exact linkStep_announced dispatch handle run.2
    | side r => exact sideStep_announced dispatch handle (related .client).placed.set run
  rcases announced.2 passed with earlier | now
  · exact (told earlier).grows announced.1
  · exact now

/-- The one acknowledgement is not lost: it is sent once, after a ready message of the server was
dispatched to the client, and then it has set the server's flag or is on its way to a server that
has its subscription. -/
theorem acknowledgement_kept (names : List String) (ids : IdManager) (built : IdManager.ofList names = some ids)
    (readyMsgStr : String) (listed : readyMsgStr ∈ names) (type : PacketType) (typed : ids.toId readyMsgStr = some type)
    (archive : BoolArchive) (p : SyncPair) (reach : (system ids archive readyMsgStr 1).ReachUnder Steady p) :
    (postedUnder readyMsgStr (p.links .client).muxer.log).length ≤ 1 ∧
    (postedUnder readyMsgStr (p.links .client).muxer.log ≠ [] →
      (∃ packet calls, .dispatched packet calls ∈ (p.links .server).demuxer.log ∧ calls ≠ [] ∧
        packet.packet ∈ (postedUnder readyMsgStr (p.links .server).muxer.log).map (·.packet)) ∧
      ((p.sides .server).ready = true ∨
        inFlight readyMsgStr type (p.links .client) = 1 ∧ (p.sides .server).Subscribed)) := by
  obtain ⟨t, rounds, related⟩ := (refines_rounds built listed typed).reach reach
  have count := Rounds.reach_countInv rounds
  have posted := (related .client).posted
  have heard : (t.channel .client).taken = dispatchedOf type (p.links .client).demuxer := (related .server).taken
  have server := (related .server).party
  have client := (related .client).party
  have lengths : (t.channel .client).posted.length = (postedUnder readyMsgStr (p.links .client).muxer.log).length := by
    rw [posted, List.length_map]
  have once : (t.channel .client).posted.length ≤ 1 := by
    have answers := count.answers
    have answered := count.posted
    obtain ⟨-, released, listened, -, bound⟩ := count.orderly .client
    omega
  refine ⟨by omega, fun sent => ⟨?_, ?_⟩⟩
  · have released : 0 < (t.party .client).released := by
      have answers := count.answers
      have answered := count.posted
      have some := List.length_pos_of_ne_nil sent
      omega
    have passed : (p.sides .client).Passed := by
      rw [client] at released
      simp only [SyncSide.party, SyncSide.released] at released
      split at released
      · rename_i free
        exact Or.inl free.2
      · exact Or.inr released
    obtain ⟨packet, calls, logged, own, called⟩ := reach_told built listed typed reach passed
    refine ⟨packet, calls, logged, called, ?_⟩
    have sub := dispatched_ready built typed (reach_links (fun _ _ met => met) reach .server)
    refine sub.subset (List.mem_map.mpr ⟨packet, List.mem_filter.mpr ⟨?_, by simpa using own⟩, rfl⟩)
    exact List.mem_filterMap.mpr ⟨_, logged, rfl⟩
  · have sent' : (t.channel .client).posted ≠ [] := by
      rw [posted]
      simpa using sent
    rcases Rounds.first_answer rounds sent' with released | ⟨none, left, listened⟩
    · left
      rw [server] at released
      by_cases free : (p.sides .server).Subscribed ∧ (p.sides .server).ready = true
      · exact free.2
      · have past : 0 < (p.sides .server).done := by
          simpa only [SyncSide.party, SyncSide.released, if_neg free] using released
        -- a call that has returned is the only one
        have bound := (count.orderly .server).bound
        rw [server] at bound
        have outside : (p.sides .server).pc = .outside := by
          by_contra inside
          simp only [SyncSide.party, SyncSide.entered, if_neg inside] at bound
          omega
        exact reach_settled built listed typed reach .server outside past
    · right
      rw [server] at left listened
      rw [heard] at none
      have empty : (dispatchedOf type (p.links .client).demuxer).length = 0 := by rw [none]; rfl
      rw [dispatchedOf, List.length_map] at empty
      have some := List.length_pos_of_ne_nil sent
      refine ⟨by unfold inFlight; omega, ?_⟩
      by_contra deaf
      have never : (p.sides .server).done = 0 := left
      simp only [SyncSide.party, if_neg deaf, never] at listened
      omega

theorem acknowledgement_kept_inFlight : ∃ (ids : IdManager) (p : SyncPair), IdManager.ofList ["ready"] = some ids ∧
    ((postedUnder "ready" (p.links .client).muxer.log).length, (p.sides .server).ready) = (1, false) ∧
    (postedUnder "ready" (p.links .client).muxer.log).length ≤ 1 ∧
    (postedUnder "ready" (p.links .client).muxer.log ≠ [] →
      (∃ packet calls, .dispatched packet calls ∈ (p.links .server).demuxer.log ∧ calls ≠ [] ∧
        packet.packet ∈ (postedUnder "ready" (p.links .server).muxer.log).map (·.packet)) ∧
      ((p.sides .server).ready = true ∨ inFlight "ready" 2 (p.links .client) = 1 ∧ (p.sides .server).Subscribed)) := by
  obtain ⟨ids, built, typed, p, reach, last⟩ :
      ∃ ids, IdManager.ofList ["ready"] = some ids ∧ ids.toId "ready" = some 2 ∧
      ∃ p, (system ids oneByte "ready" 1).ReachUnder Steady p ∧
        ((postedUnder "ready" (p.links .client).muxer.log).length, (p.sides .server).ready) = (1, false) :=
    ⟨_, rfl, rfl, TransitionSystem.ReachUnder.start.checked
      (fun p : SyncPair => ((postedUnder "ready" (p.links .client).muxer.log).length, (p.sides .server).ready))
      acknowledges (by decide +kernel)⟩
  exact ⟨ids, p, built, last,
    acknowledgement_kept ["ready"] ids built "ready" List.mem_cons_self 2 typed oneByte p reach⟩

end

end SyncPair

end PacketComms
