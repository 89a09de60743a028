import PacketComms.Sync.Refines

namespace PacketComms

namespace Rounds

variable {α : Type*}

@[simp] theorem setChannel_self (t : Rounds α) (r : Role) : t.setChannel r (t.channel r) = t := by
  simp [setChannel]

@[simp] theorem setParty_self (t : Rounds α) (r : Role) : t.setParty r (t.party r) = t := by
  simp [setParty]

end Rounds

namespace SyncPair

section

variable {names : List String} {ids : IdManager} {archive : BoolArchive} {readyMsgStr : String}
variable {type : PacketType} {k : Nat}

/-- One side moves, without its links. -/
theorem related_setSide {p : SyncPair} {t : Rounds ComPacket} (rel : Related readyMsgStr type p t) (r : Role)
    {s : SyncSide} (placed : s.Placed r ((p.links r).muxer.users 0)) (same : s.Subscribed ↔ (p.sides r).Subscribed) :
    Related readyMsgStr type (p.setSide r s) (t.setParty r (s.party r ((p.links r).muxer.users 0))) := by
  intro r'
  by_cases own : r' = r
  · subst own
    obtain ⟨-, listens, -, posted, taken⟩ := rel r'
    simp only [setSide, Function.update_self, Rounds.party_setParty, Rounds.channel_setParty]
    exact ⟨placed, listens.keep same rfl rfl rfl, rfl, posted, taken⟩
  · simpa [setSide, own] using rel r'

/-- Where the counts stay the same, the step is not seen. -/
theorem related_unseen {p : SyncPair} {t : Rounds ComPacket} (rel : Related readyMsgStr type p t) (r : Role)
    {s : SyncSide} (placed : s.Placed r ((p.links r).muxer.users 0)) (same : s.Subscribed ↔ (p.sides r).Subscribed)
    (party : s.party r ((p.links r).muxer.users 0) = (p.sides r).party r ((p.links r).muxer.users 0)) :
    Related readyMsgStr type (p.setSide r s) t := by
  have moved := related_setSide rel r placed same
  rwa [party, ← (rel r).party, Rounds.setParty_self] at moved

/-- A call begins. -/
theorem related_enter {p : SyncPair} {t : Rounds ComPacket} (rel : Related readyMsgStr type p t) {r : Role}
    (at_pc : (p.sides r).pc = .outside) (more : (p.sides r).done < k) :
    ∃ t', Rounds.step k t (.enter r) = some t' ∧
      Related readyMsgStr type (p.setSide r { p.sides r with pc := .subscribing, ready := false }) t' := by
  obtain ⟨placed, -, party, -, -⟩ := rel r
  have idle := placed.idle (by rw [at_pc]; decide)
  have next := related_setSide (s := { p.sides r with pc := .subscribing, ready := false }) rel r
    ⟨fun _ => idle, by simp, fun _ => rfl, by simp, by simp⟩ (by simp [SyncSide.Subscribed, at_pc])
  have counts : t.party r = ⟨(p.sides r).done, (p.sides r).done, (p.sides r).done,
      (if r = .server then 0 else (p.sides r).done), (p.sides r).done⟩ := by
    rw [party]
    cases r <;> simp [SyncSide.party, SyncSide.released, SyncSide.entered, SyncSide.Subscribed, at_pc]
  refine ⟨_, ?_, next⟩
  simp only [Rounds.step, counts, more, and_self, if_true]
  cases r <;> simp [SyncSide.party, SyncSide.released, SyncSide.entered, SyncSide.Subscribed]

/-- The test of the flag, the sleep, and the return from `serialise`. -/
theorem related_goesOn {p : SyncPair} {t : Rounds ComPacket} (rel : Related readyMsgStr type p t) {r : Role}
    {pc : SyncPc} (step : (p.sides r).pc = .testing ∧ pc = r.code.tested (p.sides r).ready ∨
      (p.sides r).pc = .sleeping ∧ pc = .testing ∨
      (p.sides r).pc = .emplacing ∧ (p.links r).muxer.users 0 = .idle ∧ pc = r.code.serialised) :
    Related readyMsgStr type (p.setSide r { p.sides r with pc := pc }) t := by
  obtain ⟨placed, -, -, -, -⟩ := rel r
  obtain ⟨idle, running, unset, set, answers⟩ := placed
  rcases step with ⟨at_pc, rfl⟩ | ⟨at_pc, rfl⟩ | ⟨at_pc, returned, rfl⟩
  · have rests := idle (by simp [at_pc])
    cases r <;> cases flag : (p.sides _).ready
    all_goals
      refine related_unseen rel _ ?_ ?_ ?_
      · constructor <;> simp_all [Role.code, syncWithClient, syncWithServer]
      · simp [Role.code, syncWithClient, syncWithServer, SyncSide.Subscribed, at_pc]
      · simp [Role.code, syncWithClient, syncWithServer, SyncSide.party, SyncSide.released, SyncSide.entered,
          SyncSide.Subscribed, at_pc, flag]
  · have rests := idle (by simp [at_pc])
    refine related_unseen rel r ?_ ?_ ?_
    · constructor <;> simp_all
    · simp [SyncSide.Subscribed, at_pc]
    · cases r <;> simp [SyncSide.party, SyncSide.released, SyncSide.entered, SyncSide.Subscribed, at_pc]
  · cases r
    all_goals
      refine related_unseen rel _ ?_ ?_ ?_
      · constructor <;> simp_all [Role.code, syncWithClient, syncWithServer]
      · simp [Role.code, syncWithClient, syncWithServer, SyncSide.Subscribed, at_pc]
      · simp [Role.code, syncWithClient, syncWithServer, SyncSide.party, SyncSide.released, SyncSide.entered,
          SyncSide.Subscribed, at_pc, returned, PostPc.queued]

/-- One side moves, with its muxer. -/
theorem related_sends {p : SyncPair} {t : Rounds ComPacket} (rel : Related readyMsgStr type p t) {r : Role} {l : Link}
    {action : MuxerAction} (moved : Link.step ids (p.links r) (.muxer action) = some l) (s : SyncSide)
    (sends : Fifo ComPacket) (placed : s.Placed r (l.muxer.users 0)) (same : s.Subscribed ↔ (p.sides r).Subscribed)
    (posted : sends.posted = (postedUnder readyMsgStr l.muxer.log).map (·.packet))
    (taken : sends.taken = (t.channel r).taken) :
    Related readyMsgStr type ⟨Function.update p.sides r s, Function.update p.links r l⟩
      ((t.setChannel r sends).setParty r (s.party r (l.muxer.users 0))) := by
  obtain ⟨-, log, handles, destructor⟩ := Link.step_muxer moved
  intro r'
  rcases r.eq_or_peer r' with rfl | rfl
  · obtain ⟨-, listens, -, -, heard⟩ := rel r'
    simp only [Function.update_self, Function.update_of_ne r'.peer_ne, Rounds.party_setParty, Rounds.channel_setParty,
      Rounds.channel_setChannel]
    exact ⟨placed, listens.keep same rfl rfl rfl, rfl, posted, heard⟩
  · have peer := rel r.peer
    simp only [Role.peer_peer] at peer
    have unseen := peer.unseen rfl rfl handles destructor (by rw [log]) (show dispatchedOf type l.demuxer = _ by
      rw [dispatchedOf, log]; rfl)
    obtain ⟨placed', listens', party', posted', heard'⟩ := unseen
    simp only [Function.update_self, Function.update_of_ne r.peer_ne, Role.peer_peer, Rounds.party_setParty,
      Rounds.channel_setParty, Rounds.channel_setChannel, Rounds.party_setChannel]
    exact ⟨placed', listens', party', posted', taken.trans heard'⟩

/-- The steps of a link on the muxer's side make no callback. -/
theorem linkStep_muxer {p p' : SyncPair} {r : Role} {action : MuxerAction}
    (run : p.linkStep ids archive r (.muxer action) = some p') :
    ∃ l, Link.step ids (p.links r) (.muxer action) = some l ∧ p' = ⟨p.sides, Function.update p.links r l⟩ := by
  obtain ⟨l, moved, rfl⟩ := Option.map_eq_some_iff.mp run
  obtain ⟨-, log, -⟩ := Link.step_muxer moved
  refine ⟨l, moved, ?_⟩
  rw [log, List.drop_length, List.foldl_nil, Function.update_eq_self]

/-- The call of `emplacePacket` begins. -/
theorem related_calls {p p' : SyncPair} {t : Rounds ComPacket} (rel : Related readyMsgStr type p t) {r : Role}
    (typed : ids.toId readyMsgStr = some type) (at_pc : (p.sides r).pc = .serialising)
    (run : p.linkStep ids archive r (.muxer (.post 0 readyMsgStr (.moved (archive.encode true)))) = some p') :
    Related readyMsgStr type (p'.setSide r { p.sides r with pc := .emplacing }) t := by
  obtain ⟨l, moved, rfl⟩ := linkStep_muxer run
  obtain ⟨users, log⟩ := (PacketMuxer.step_effect (Link.step_muxer moved).1).post typed
  obtain ⟨placed, -, party, posted, -⟩ := rel r
  have next :=
    related_sends rel moved { p.sides r with pc := .emplacing } (t.channel r) ?_ ?_ (by rw [log]; exact posted) rfl
  · have counts : ({ p.sides r with pc := .emplacing } : SyncSide).party r (l.muxer.users 0) = t.party r := by
      rw [party, users, Function.update_self]
      cases r <;> simp [SyncSide.party, SyncSide.released, SyncSide.entered, SyncSide.Subscribed, PostPc.queued, at_pc]
    rw [counts, Rounds.setChannel_self, Rounds.setParty_self] at next
    exact next
  · obtain ⟨-, -, -, -, answers⟩ := placed
    exact ⟨by simp, by simp, by simp, by simp, fun client _ => answers client (Or.inl at_pc)⟩
  · simp [SyncSide.Subscribed, at_pc]

/-- A step of the call of `emplacePacket`: a ready message is sent, or nothing is seen. -/
theorem related_emplaces {p p' : SyncPair} {t : Rounds ComPacket} (rel : Related readyMsgStr type p t) {r : Role}
    (post : PacketMuxer.PostInv (ReadyPost archive readyMsgStr) ids (p.links r).muxer)
    (at_pc : (p.sides r).pc = .emplacing) (run : p.linkStep ids archive r (.muxer (.user 0 true)) = some p') :
    Related readyMsgStr type p' t ∨
      ∃ a t', Rounds.step k t (.send r a) = some t' ∧ Related readyMsgStr type p' t' := by
  obtain ⟨l, moved, rfl⟩ := linkStep_muxer run
  obtain ⟨placed, -, party, posted, -⟩ := rel r
  have still : (p.sides r).Placed r (l.muxer.users 0) := by
    obtain ⟨-, running, unset, set, answers⟩ := placed
    exact ⟨fun other => absurd at_pc other, running, unset, set, answers⟩
  rcases (PacketMuxer.step_effect (Link.step_muxer moved).1).emplaces post with
    ⟨queued, log⟩ | ⟨before, now, packet, log⟩
  · have next := related_sends rel moved (p.sides r) (t.channel r) still Iff.rfl (by rw [log]; exact posted) rfl
    have counts : (p.sides r).party r (l.muxer.users 0) = t.party r := by
      rw [party]
      simp only [SyncSide.party, queued]
    rw [counts, Rounds.setChannel_self, Rounds.setParty_self, Function.update_eq_self] at next
    exact Or.inl next
  · have next := related_sends rel moved (p.sides r) ((t.channel r).post packet.packet) still Iff.rfl
      (by rw [log]; simp [posted]) rfl
    rw [Function.update_eq_self] at next
    refine Or.inr ⟨packet.packet, _, ?_, next⟩
    have subscribed : (p.sides r).Subscribed := by simp [SyncSide.Subscribed, at_pc]
    cases r with
    | server =>
      have counts : (p.sides .server).party .server (l.muxer.users 0) = t.party .server := by rw [party]; rfl
      have listens : (t.party .server).left < (t.party .server).listened := by
        simp [party, SyncSide.party, subscribed]
      simp [Rounds.step, listens, counts, Rounds.setParty, Rounds.setChannel]
    | client =>
      have flag := placed.answers rfl (Or.inr at_pc)
      have released : (t.party .client).answered < (t.party .client).released := by
        simp [party, SyncSide.party, SyncSide.released, subscribed, flag, at_pc, before]
      simp only [Rounds.step, released, if_true, Option.some.injEq]
      congr 1
      simp [party, SyncSide.party, at_pc, now, before]

/-- One side moves, with its demuxer. -/
theorem related_hears {p : SyncPair} {t : Rounds ComPacket} (rel : Related readyMsgStr type p t) {r : Role} {l : Link}
    {action : DemuxerAction} (moved : Link.step ids (p.links r.peer) (.demuxer action) = some l) (s : SyncSide)
    (placed : s.Placed r ((p.links r).muxer.users 0)) (listens : s.Listens type l.demuxer)
    (packets : dispatchedOf type l.demuxer = dispatchedOf type (p.links r.peer).demuxer) :
    Related readyMsgStr type ⟨Function.update p.sides r s, Function.update p.links r.peer l⟩
      (t.setParty r (s.party r ((p.links r).muxer.users 0))) := by
  obtain ⟨-, muxer⟩ := Link.step_demuxer moved
  intro r'
  rcases r.eq_or_peer r' with rfl | rfl
  · obtain ⟨-, -, -, posted, taken⟩ := rel r'
    simp only [Function.update_self, Function.update_of_ne r'.ne_peer, Rounds.party_setParty, Rounds.channel_setParty]
    exact ⟨placed, listens, rfl, posted, by rw [packets]; exact taken⟩
  · obtain ⟨placed', listens', party', posted', taken'⟩ := rel r.peer
    rw [Role.peer_peer] at listens' taken'
    simp only [Function.update_self, Function.update_of_ne r.peer_ne, Function.update_of_ne r.ne_peer, Role.peer_peer,
      Rounds.party_setParty, Rounds.channel_setParty, muxer]
    exact ⟨placed', listens', party', posted', taken'⟩

/-- A step on the demuxer's side of a side that moves itself. -/
theorem linkStep_setSide {p p' : SyncPair} {r : Role} {action : LinkAction}
    (run : p.linkStep ids archive r.peer action = some p') :
    ∃ l, Link.step ids (p.links r.peer) action = some l ∧
      ∀ s, p'.setSide r s = ⟨Function.update p.sides r s, Function.update p.links r.peer l⟩ := by
  obtain ⟨l, moved, rfl⟩ := Option.map_eq_some_iff.mp run
  exact ⟨l, moved, fun s => by simp [setSide]⟩

/-- The call subscribes. -/
theorem related_listen {p p' : SyncPair} {t : Rounds ComPacket} (rel : Related readyMsgStr type p t) {r : Role}
    (typed : ids.toId readyMsgStr = some type) (inv : PacketDemuxer.DispatchInv (p.links r.peer).demuxer)
    (at_pc : (p.sides r).pc = .subscribing)
    (run : p.linkStep ids archive r.peer (.demuxer (.subscribe 0 readyMsgStr)) = some p') :
    ∃ t', Rounds.step k t (.listen r) = some t' ∧
      Related readyMsgStr type (p'.setSide r { p.sides r with pc := .testing }) t' := by
  obtain ⟨l, moved, after⟩ := linkStep_setSide run
  obtain ⟨u, own, new, handle, destructor, log⟩ :=
    (PacketDemuxer.step_effect (Link.step_demuxer moved).1).subscribe typed
  obtain ⟨placed, listens, party, -, -⟩ := rel r
  obtain ⟨empty, none⟩ := listens.unsubscribed (by simp [SyncSide.Subscribed, at_pc])
  have idle := placed.idle (by simp [at_pc])
  have unset := placed.unset at_pc
  have fresh : .unsubscribed u ∉ (p.links r.peer).demuxer.log := fun member => by
    have before := inv.fresh u member
    omega
  have single : registered type l.demuxer.log = [u] := by
    rw [log, registered_subscribed fresh, none, if_pos own]
    rfl
  have next := related_hears rel moved { p.sides r with pc := .testing }
    ⟨fun _ => idle, by simp, by simp, by simp, by simp⟩
    ⟨destructor.trans listens.alive, fun _ => ⟨u, handle, own, single⟩, fun deaf => absurd ⟨by simp, by simp⟩ deaf⟩
    (by simp [dispatchedOf, log, dispatches])
  rw [after]
  refine ⟨_, ?_, next⟩
  have counts : t.party r = ⟨(p.sides r).done + 1, (p.sides r).done, (p.sides r).done,
      (if r = .server then 0 else (p.sides r).done), (p.sides r).done⟩ := by
    rw [party]
    cases r <;> simp [SyncSide.party, SyncSide.released, SyncSide.entered, SyncSide.Subscribed, at_pc]
  simp only [Rounds.step, counts, Nat.lt_succ_self, if_true]
  cases r <;> simp [SyncSide.party, SyncSide.released, SyncSide.entered, SyncSide.Subscribed, unset]

/-- The call returns, and its subscription ends. -/
theorem related_leave {p p' : SyncPair} {t : Rounds ComPacket} (rel : Related readyMsgStr type p t) {r : Role}
    (inv : ∀ l, Link.step ids (p.links r.peer) (.demuxer (.destruct 0)) = some l → PacketDemuxer.DispatchInv l.demuxer)
    (at_pc : (p.sides r).pc = .leaving) (run : p.linkStep ids archive r.peer (.demuxer (.destruct 0)) = some p') :
    ∃ t', Rounds.step k t (.leave r) = some t' ∧
      Related readyMsgStr type (p'.setSide r { p.sides r with pc := .outside, done := (p.sides r).done + 1 }) t' := by
  obtain ⟨l, moved, after⟩ := linkStep_setSide run
  obtain ⟨placed, listens, party, -, -⟩ := rel r
  have subscribed : (p.sides r).Subscribed := by simp [SyncSide.Subscribed, at_pc]
  obtain ⟨u, handle, own, single⟩ := listens.subscribed subscribed
  have idle := placed.idle (by simp [at_pc])
  have flag := placed.set at_pc
  obtain ⟨empty, destructor, gone, more, log, ends⟩ :=
    (PacketDemuxer.step_effect (Link.step_demuxer moved).1).destruct (inv l moved)
      (by rw [listens.alive]; decide) handle
  have none : registered type l.demuxer.log = [] := by
    refine List.eq_nil_iff_forall_not_mem.mpr (fun v member => ?_)
    obtain ⟨typed, there, stays⟩ := mem_registered.mp member
    rw [log, List.mem_append] at there stays
    have old : .subscribed v ∈ (p.links r.peer).demuxer.log := by
      refine there.resolve_right (fun late => ?_)
      rcases ends _ late with same | same <;> cases same
    have before : v ∈ registered type (p.links r.peer).demuxer.log :=
      mem_registered.mpr ⟨typed, old, fun early => stays (Or.inl early)⟩
    rw [single, List.mem_singleton] at before
    subst before
    rw [log, List.mem_append] at gone
    exact stays gone
  have packets : dispatches more = [] := by
    refine List.filterMap_eq_nil_iff.mpr (fun event member => ?_)
    rcases ends event member with rfl | rfl <;> rfl
  have next := related_hears rel moved { p.sides r with pc := .outside, done := (p.sides r).done + 1 }
    ⟨fun _ => idle, by simp, by simp, by simp, by simp⟩
    ⟨destructor.trans listens.alive, by simp [SyncSide.Subscribed], fun _ => ⟨empty, none⟩⟩
    (by simp [dispatchedOf, log, dispatches_append, packets])
  rw [after]
  refine ⟨_, ?_, next⟩
  cases r
  all_goals
    simp [Rounds.step, party, SyncSide.party, SyncSide.released, SyncSide.entered, SyncSide.Subscribed, at_pc, flag]

end

end SyncPair

end PacketComms
