import PacketComms.Sync.Idling

namespace PacketComms

/-- Where a step of `emplacePacket` is possible, memory lets it be possible too. -/
theorem PacketMuxer.Emplaced.allocates {m m' : PacketMuxer} {t : MuxerThread} {alloc : Bool} {pc pc' : PostPc}
    (step : Emplaced m t alloc pc pc' m') : ∃ pc'' m'', Emplaced m t true pc pc'' m'' := by
  cases step with
  | locked acquired => exact ⟨_, _, .locked acquired⟩
  | @threw name type args =>
    cases made : ComPacket.make type args with
    | none => exact ⟨_, _, .threw made⟩
    | some packet => exact ⟨_, _, .emplaced rfl made⟩
  | emplaced _ made => exact ⟨_, _, .emplaced rfl made⟩
  | signalled => exact ⟨_, _, .signalled⟩
  | unlocked released => exact ⟨_, _, .unlocked released⟩

namespace Rounds

variable {α : Type*} {k : Nat} {s s' : Rounds α} {action : RoundAction α}

/-- A party that listens is released by the next message. -/
theorem Effect.told (effect : Effect k s action s') {r : Role} (listens : 0 < (s.party r.peer).listened) :
    (s'.channel r).taken = (s.channel r).taken ∨ 0 < (s'.party r.peer).released := by
  cases effect with
  | entered | listened | serverLeft | clientLeft => exact Or.inl rfl
  | sent | answered => cases r <;> exact Or.inl (by simp)
  | @delivered from_ a q took =>
    by_cases same : r = from_
    · subst same
      refine Or.inr ?_
      simp only [party_setParty, Function.update_self]
      unfold Party.receive
      split
      · exact Nat.succ_pos _
      · omega
    · exact Or.inl (by simp [same])

end Rounds

namespace SyncPair

open TransitionSystem (Execution)

section

variable {names : List String} {ids : IdManager} {archive : BoolArchive} {readyMsgStr : String}
variable {type : PacketType} {k : Nat} {e : (system ids archive readyMsgStr k).Execution Steady}

/-- A side goes on in its call of `emplacePacket`. -/
def Emplacing (r : Role) (p : SyncPair) (action : SyncAction) : Prop :=
  OnSide r p action ∧ (p.sides r).pc = .emplacing ∧ (p.links r).muxer.users 0 ≠ .idle

/-- A fair program is fair to its call of `emplacePacket`. -/
theorem fair_emplacing (built : IdManager.ofList names = some ids) (listed : readyMsgStr ∈ names)
    (typed : ids.toId readyMsgStr = some type) {r : Role} (fair : e.Fair (OnSide r)) : e.Fair (Emplacing r) := by
  refine fair.place (fun p => (p.sides r).pc = .emplacing ∧ (p.links r).muxer.users 0 ≠ .idle) ?_ ?_ ?_
  · rintro p - ⟨a, p', met, ⟨own, place⟩, run⟩
    exact ⟨place, a, p', met, own, run⟩
  · intro p a p' reach place met run
    by_cases own : OnSide r p a
    · exact Or.inl ⟨own, place⟩
    · have stands := others_stand built listed typed reach met run own
      exact Or.inr ⟨stands.pc.trans place.1, by rw [stands.users]; exact place.2⟩
  · exact fun p a p' _ place _ own _ => ⟨own, place⟩

theorem fair_users (built : IdManager.ofList names = some ids) (listed : readyMsgStr ∈ names)
    (typed : ids.toId readyMsgStr = some type) {r : Role} (fair : e.Fair (OnSide r)) (i : Nat) :
    (linkSide listed e r).Fair (Link.OnMuxer (PacketMuxer.UserThread i)) := by
  have moves {l : Link} (enabled : (Link.system ids).Enabled (Link.Reliable (ShortPost names))
      (Link.OnMuxer (PacketMuxer.UserThread i)) l) : ∃ alloc pc m, PacketMuxer.Emplaced l.muxer (.user i) alloc
        (l.muxer.users i) pc m := by
    obtain ⟨-, l', -, ⟨a, rfl, kind⟩, run⟩ := enabled
    have effect := PacketMuxer.step_effect (Link.muxer_moves run)
    generalize l'.muxer = m at effect
    cases effect with
    | user step =>
      obtain rfl : _ = i := kind
      exact ⟨_, _, _, step⟩
    | _ => cases kind
  by_cases first : i = 0
  · subst first
    refine (fair_emplacing built listed typed fair).component (U := Link.system ids)
      (D := Link.Reliable (ShortPost names)) (fun p => p.links r) rfl
        (fun _ met run => link_step listed met run r) ?_ ?_
    · intro p reach enabled
      obtain ⟨alloc, pc, m, step⟩ := moves enabled
      obtain ⟨pc', m', step⟩ := step.allocates
      have busy : (p.links r).muxer.users 0 ≠ .idle := by
        intro idle
        rw [idle] at step
        cases step
      obtain ⟨t, -, related⟩ := (refines_rounds built listed typed).reach reach
      have at_pc : (p.sides r).pc = .emplacing := by
        by_contra elsewhere
        exact busy ((related r).placed.idle elsewhere)
      obtain ⟨-, l', -, ⟨a, rfl, -⟩, run⟩ := enabled
      have alive := PacketMuxer.alive_of_step (Link.muxer_moves run)
      have goes : PacketMuxer.step ids (p.links r).muxer (.user 0 true) =
          some { m' with users := Function.update m'.users 0 pc' } := by
        rw [PacketMuxer.step_user alive, step.run, Option.map_some]
      obtain ⟨p', moved⟩ : ∃ p', p.sideStep ids archive readyMsgStr k r = some p' := by
        simp [sideStep, at_pc, linkStep, Link.step, goes]
      refine ⟨.side r, p', fun outside => ?_, ⟨rfl, at_pc, busy⟩, moved⟩
      rw [at_pc] at outside
      cases outside
    · rintro p a p' reach met ⟨rfl, at_pc, busy⟩ run
      have moved : p.sideStep ids archive readyMsgStr k r = some p' := run
      simp only [sideStep, at_pc] at moved
      obtain ⟨l, step, links, -⟩ := linkStep_cases moved
      refine ⟨.muxer (.user 0 true), ⟨trivial, trivial⟩, ⟨.user 0 true, rfl, rfl⟩, ?_⟩
      rw [links, Function.update_self]
      exact step
  · refine .of_never (fun n enabled => ?_)
    obtain ⟨alloc, pc, m, step⟩ := moves enabled
    have idle : ((e.state n).links r).muxer.users i = .idle := (reach_unharmed (e.reach n) r).users i first
    have step' : PacketMuxer.Emplaced ((e.state n).links r).muxer (.user i) alloc
        (((e.state n).links r).muxer.users i) pc m := step
    rw [idle] at step'
    cases step'

theorem fairSides (built : IdManager.ofList names = some ids) (listed : readyMsgStr ∈ names)
    (typed : ids.toId readyMsgStr = some type) (fair : FairPair e) (r : Role) :
    Link.FairSides (linkSide listed e r) := by
  refine ⟨fair_link ?_ (fair.send r), fun i => fair_users built listed typed (fair.sides r) i, .of_never ?_,
    fair_link ?_ (fair.receive r), fair_link ?_ (fair.notices r), fair_link ?_ (fair.reads r), .of_never ?_⟩
  · rintro l - ⟨a, rfl, kind⟩
    cases a <;> first | rfl | cases kind
  · rintro n ⟨-, l', -, ⟨a, rfl, kind⟩, run⟩
    have alone : ((linkSide listed e r).state n).muxer.destructor = .notCalled := (reach_unharmed (e.reach n) r).muxer
    have effect := PacketMuxer.step_effect (Link.muxer_moves run)
    generalize l'.muxer = m at effect
    cases effect with
    | destroyLocked at_pc | destroyStored at_pc | destroyUnlocked at_pc | destroyJoined at_pc =>
      rw [alone] at at_pc
      cases at_pc
    | _ => cases kind
  · rintro l - ⟨a, rfl, kind⟩
    cases a <;> first | rfl | cases kind
  · rintro l - ⟨a, rfl, -, rfl⟩
    rfl
  · rintro l - ⟨a, rfl, n, -, rfl⟩
    rfl
  · rintro n ⟨-, l', -, ⟨a, rfl, called, -⟩, -⟩
    exact called (reach_unharmed (e.reach n) r).demuxer

theorem Greeted.keeps {p p' : SyncPair} {action : SyncAction} (greeted : p.Greeted) (met : Steady p action)
    (run : step ids archive readyMsgStr k p action = some p') : p'.Greeted := by
  have grows (r : Role) : (p.links r).demuxer.log <+: (p'.links r).demuxer.log := by
    rcases step_links met run with same | ⟨r', a, l, moved, -, links⟩
    · exact same ▸ List.prefix_rfl
    · rw [links]
      by_cases own : r = r'
      · subst own
        rw [Function.update_self]
        exact Link.log_grows moved
      · rw [Function.update_of_ne own]
  exact ⟨(grows .server).subset greeted.1, (grows .client).subset greeted.2⟩

theorem greeted_kept {n m : Nat} (greeted : (e.state n).Greeted) (later : n ≤ m) : (e.state m).Greeted :=
  Execution.lasts (P := Greeted) (fun _ _ _ _ greeted met run => greeted.keeps met run) greeted later

/-- Behind the handshake nothing disturbs a link. -/
theorem undisturbed {l : Link} (reach : (Link.system ids).ReachUnder (Link.Reliable (ShortPost names)) l)
    (unharmed : Unharmed l) (greeted : .greeted ControlMessage.hello.packet ∈ l.demuxer.log) : ¬ l.Disturbed := by
  obtain ⟨-, demuxer⟩ := Link.reach_sides reach
  obtain ⟨after, split, -⟩ := (PacketDemuxer.reach_greetedFirst demuxer).split greeted
  have sent := (PacketDemuxer.reach_handledInv demuxer).sub.trans (Link.received_sub (fun _ _ may => may.2) reach)
  rw [split] at sent
  obtain ⟨rest, same⟩ := sent
  rintro (called | called | ⟨p, head, other⟩)
  · exact called unharmed.muxer
  · exact called unharmed.demuxer
  · rw [← same] at head
    exact other (Option.some.inj head).symm

/-- A side that has subscribed stays so until its flag is set. -/
theorem subscribed_keeps (built : IdManager.ofList names = some ids) (listed : readyMsgStr ∈ names)
    (typed : ids.toId readyMsgStr = some type) {p p' : SyncPair} {action : SyncAction} {r : Role}
    (reach : (system ids archive readyMsgStr k).ReachUnder Steady p) (met : Steady p action)
    (run : step ids archive readyMsgStr k p action = some p') (subscribed : (p.sides r).Subscribed)
    (unset : (p.sides r).ready = false) : (p'.sides r).Subscribed := by
  by_cases own : OnSide r p action
  · obtain rfl := own
    obtain ⟨t, -, related⟩ := (refines_rounds built listed typed).reach reach
    have placed := (related r).placed
    rw [(side_next typed run).1]
    cases at_pc : (p.sides r).pc with
    | outside | subscribing => simp [SyncSide.Subscribed, at_pc] at subscribed
    | terminated => exact absurd at_pc placed.running
    | leaving =>
      rw [placed.set at_pc] at unset
      cases unset
    | emplacing =>
      cases r <;> cases (p.links _).muxer.users 0 <;>
        simp [SyncSide.next, at_pc, SyncSide.Subscribed, Role.code, syncWithClient, syncWithServer]
    | testing | serialising | sleeping =>
      cases r <;> simp [SyncSide.next, at_pc, SyncSide.Subscribed, unset, Role.code, syncWithClient, syncWithServer]
  · have stands := others_stand built listed typed reach met run own
    simpa only [SyncSide.Subscribed, stands.pc] using subscribed

/-- A side that has subscribed is released by the next ready message. -/
theorem told_step (built : IdManager.ofList names = some ids) (listed : readyMsgStr ∈ names)
    (typed : ids.toId readyMsgStr = some type) {p p' : SyncPair} {action : SyncAction} {r : Role}
    (reach : (system ids archive readyMsgStr k).ReachUnder Steady p) (met : Steady p action)
    (run : step ids archive readyMsgStr k p action = some p') (subscribed : (p.sides r.peer).Subscribed) :
    dispatchedOf type (p'.links r).demuxer = dispatchedOf type (p.links r).demuxer ∨
      0 < (p'.sides r.peer).released := by
  obtain ⟨t, -, related⟩ := (refines_rounds built listed typed).reach reach
  have listens : 0 < (t.party r.peer).listened := by
    rw [(related r.peer).party]
    simp [SyncSide.party, subscribed]
  have heard := (related r.peer).taken
  rcases related_step (fun _ _ met => met) built listed typed reach met related run with
    unseen | ⟨b, t', -, moved, next⟩
  · have heard' := (unseen r.peer).taken
    rw [Role.peer_peer] at heard heard'
    exact Or.inl (heard'.symm.trans heard)
  · have heard' := (next r.peer).taken
    rw [Role.peer_peer] at heard heard'
    rcases (Rounds.step_effect moved).told listens with same | released
    · exact Or.inl (heard'.symm.trans (same.trans heard))
    · rw [(next r.peer).party] at released
      exact Or.inr released

/-- Nothing more is dispatched than was posted. -/
theorem dispatched_le (built : IdManager.ofList names = some ids) (listed : readyMsgStr ∈ names)
    (typed : ids.toId readyMsgStr = some type) {p : SyncPair}
    (reach : (system ids archive readyMsgStr k).ReachUnder Steady p) (r : Role) :
    (dispatchedOf type (p.links r).demuxer).length ≤ (postedUnder readyMsgStr (p.links r).muxer.log).length := by
  obtain ⟨t, -, related⟩ := (refines_rounds built listed typed).reach reach
  have heard := (related r.peer).taken
  have posted := (related r).posted
  have balance := (t.channel r).length_balance
  rw [Role.peer_peer] at heard
  rw [heard, posted, List.length_map] at balance
  omega

/-- A call that has returned has returned for good. -/
theorem done_kept (built : IdManager.ofList names = some ids) (listed : readyMsgStr ∈ names)
    (typed : ids.toId readyMsgStr = some type) {r : Role} {n m : Nat} (returned : 0 < ((e.state n).sides r).done)
    (later : n ≤ m) : 0 < ((e.state m).sides r).done := by
  refine Execution.lasts (P := fun p : SyncPair => 0 < (p.sides r).done) ?_ returned later
  intro p a p' reach returned met run
  by_cases own : OnSide r p a
  · obtain rfl := own
    rw [(side_next typed run).1]
    unfold SyncSide.next
    split <;> first | exact returned | exact Nat.succ_pos _
  · rw [(others_stand built listed typed reach met run own).done]
    exact returned

/-- The server is released only after the client. -/
theorem released_client (built : IdManager.ofList names = some ids) (listed : readyMsgStr ∈ names)
    (typed : ids.toId readyMsgStr = some type) {p : SyncPair}
    (reach : (system ids archive readyMsgStr k).ReachUnder Steady p) (released : 0 < (p.sides .server).released) :
    0 < (p.sides .client).released := by
  obtain ⟨t, rounds, related⟩ := (refines_rounds built listed typed).reach reach
  have count := Rounds.reach_countInv rounds
  have balance := (t.channel .client).length_balance
  have server : (t.party .server).released = (p.sides .server).released := by rw [(related .server).party]; rfl
  have client : (t.party .client).released = (p.sides .client).released := by rw [(related .client).party]; rfl
  calc 0 < (t.party .server).released := server ▸ released
    _ ≤ (t.channel .client).taken.length := count.taken
    _ ≤ (t.party .client).answered := by rw [← count.posted]; omega
    _ ≤ (t.party .client).released := count.answers
    _ = (p.sides .client).released := client

/-- An acknowledgement that has come has released the server. -/
theorem released_server (built : IdManager.ofList names = some ids) (listed : readyMsgStr ∈ names)
    (typed : ids.toId readyMsgStr = some type) {p : SyncPair}
    (reach : (system ids archive readyMsgStr k).ReachUnder Steady p)
    (came : 0 < (dispatchedOf type (p.links .client).demuxer).length) : 0 < (p.sides .server).released := by
  obtain ⟨t, rounds, related⟩ := (refines_rounds built listed typed).reach reach
  have heard : (t.channel .client).taken = dispatchedOf type (p.links .client).demuxer := (related .server).taken
  have released := (Rounds.reach_firstInv rounds).heard (List.ne_nil_of_length_pos (heard ▸ came))
  rw [(related .server).party] at released
  exact released

/-- A client that has returned has posted its acknowledgement. -/
theorem posted_returned (built : IdManager.ofList names = some ids) (listed : readyMsgStr ∈ names)
    (typed : ids.toId readyMsgStr = some type) {p : SyncPair}
    (reach : (system ids archive readyMsgStr k).ReachUnder Steady p) (returned : 0 < (p.sides .client).done) :
    0 < (postedUnder readyMsgStr (p.links .client).muxer.log).length := by
  obtain ⟨t, rounds, related⟩ := (refines_rounds built listed typed).reach reach
  have count := Rounds.reach_countInv rounds
  have left : (t.party .client).left = (p.sides .client).done := by rw [(related .client).party]; rfl
  have posted := (related .client).posted
  have answered := count.posted
  have leaves := count.leaves
  rw [posted, List.length_map] at answered
  omega

/-- How far a side whose flag is set is from its return. -/
def leaveStage : Role → SyncPc → PostPc → Nat
  | .server, .serialising, _ => 8
  | .server, .emplacing, post => 3 + post.rank
  | .server, .sleeping, _ => 2
  | .server, .testing, _ => 1
  | .client, .sleeping, _ => 8
  | .client, .testing, _ => 7
  | .client, .serialising, _ => 6
  | .client, .emplacing, post => 1 + post.rank
  | _, _, _ => 0

/-- How far a server whose flag is not set is from its next post. -/
def postStage : SyncPc → PostPc → Nat
  | .emplacing, .signalling => 7
  | .emplacing, .unlocking => 6
  | .emplacing, .idle => 5
  | .sleeping, _ => 4
  | .testing, _ => 3
  | .serialising, _ => 2
  | .emplacing, .locking .. => 1
  | _, _ => 0

section Stages

variable (built : IdManager.ofList names = some ids) (few : names.length ≤ 2 ^ 32 - 2) (listed : readyMsgStr ∈ names)
  (typed : ids.toId readyMsgStr = some type) (fair : FairPair e)

include built few listed typed fair

/-- The rule for the stages of a call. The others leave a side at its place; each of its own steps brings it nearer to
the goal. -/
theorem side_leads (r : Role) {P Q : SyncPair → Prop} (rank : SyncPc → PostPc → Nat)
    (more : ∀ p, P p → (p.sides r).pc = .outside → (p.sides r).done < k ∧ p.Greeted)
    (stands : ∀ p p', P p → (p.Greeted → p'.Greeted) → Stands readyMsgStr r p p' → Q p' ∨ P p')
    (goes : ∀ p p', (system ids archive readyMsgStr k).ReachUnder Steady p → P p → (p.Greeted → p'.Greeted) →
      p.sideStep ids archive readyMsgStr k r = some p' → Q p' ∨ P p' ∧
        rank (p'.sides r).pc ((p'.links r).muxer.users 0) < rank (p.sides r).pc ((p.links r).muxer.users 0)) :
    e.LeadsTo P Q := by
  refine .descend_own (fair.sides r) (fun p => rank (p.sides r).pc ((p.links r).muxer.users 0)) ?_ ?_ ?_
  · intro p a p' reach holds met other run
    have still := others_stand built listed typed reach met run other
    refine (stands p p' holds (fun greeted => greeted.keeps met run) still).imp id (fun holds => ⟨holds, ?_⟩)
    rw [still.pc, still.users]
  · rintro p a p' reach holds met rfl run
    exact goes p p' reach holds (fun greeted => greeted.keeps met run) run
  · intro n stays
    obtain ⟨m, later, free⟩ := PacketMuxer.lock_freed (Link.proper_muxer built few) built
      (fairSides built listed typed fair r).muxer n trivial
    exact ⟨m, later, side_enabled built few listed typed (e.reach m) free (more _ (stays m later).1)⟩

/-- Each side comes to subscribe. -/
theorem subscribes (r : Role) : e.LeadsTo (fun p => p.Greeted ∧ (p.sides r).done < k ∧ ¬ (p.sides r).Subscribed)
    (fun p => (p.sides r).Subscribed) := by
  refine side_leads built few listed typed fair r (fun pc _ => if pc = .outside then 1 else 0) ?_ ?_ ?_
  · exact fun p ⟨greeted, more, _⟩ _ => ⟨more, greeted⟩
  · rintro p p' ⟨greeted, more, none⟩ keeps stands
    refine Or.inr ⟨keeps greeted, stands.done ▸ more, ?_⟩
    simpa only [SyncSide.Subscribed, stands.pc] using none
  · rintro p p' reach ⟨greeted, more, none⟩ keeps run
    obtain ⟨next, -⟩ := side_next typed run
    rw [next]
    cases at_pc : (p.sides r).pc with
    | outside =>
      exact Or.inr ⟨⟨keeps greeted, by simpa [SyncSide.next, at_pc] using more,
        by simp [SyncSide.next, at_pc, SyncSide.Subscribed]⟩, by simp [SyncSide.next, at_pc]⟩
    | subscribing => exact Or.inl (by simp [SyncSide.next, at_pc, SyncSide.Subscribed])
    | _ => exact absurd (by simp [SyncSide.Subscribed, at_pc]) none

/-- Once its flag is set, a call returns. -/
theorem leaves (r : Role) (d : Nat) : e.LeadsTo
    (fun p => (p.sides r).Subscribed ∧ (p.sides r).ready = true ∧ (p.sides r).done = d)
    (fun p => d < (p.sides r).done) := by
  refine side_leads built few listed typed fair r (leaveStage r) ?_ ?_ ?_
  · exact fun p ⟨subscribed, _⟩ outside => absurd outside subscribed.1
  · rintro p p' ⟨subscribed, set, same⟩ - stands
    refine Or.inr ⟨?_, stands.ready set, stands.done.trans same⟩
    simpa only [SyncSide.Subscribed, stands.pc] using subscribed
  · rintro p p' reach ⟨subscribed, set, same⟩ - run
    obtain ⟨next, muxer⟩ := side_next typed run
    have running := reach_running built listed typed reach r
    rw [next]
    rcases muxer with ⟨at_pc, posts⟩ | ⟨at_pc, busy, moves⟩ | ⟨elsewhere, idle, muxer⟩
    · obtain ⟨users, -⟩ := (PacketMuxer.step_effect posts).post typed
      refine Or.inr ⟨by simpa [SyncSide.next, at_pc, SyncSide.Subscribed] using ⟨set, same⟩, ?_⟩
      rw [users, Function.update_self]
      cases r <;> simp [SyncSide.next, at_pc, leaveStage, PostPc.rank]
    · have nearer := (PacketMuxer.step_effect moves).user_goes rfl
      have stays : (p.sides r).next r ((p.links r).muxer.users 0) = p.sides r := by
        cases post : (p.links r).muxer.users 0 with
        | idle => exact absurd post busy
        | _ => simp [SyncSide.next, at_pc]
      rw [stays, at_pc]
      refine Or.inr ⟨⟨subscribed, set, same⟩, ?_⟩
      cases r <;> simpa [leaveStage] using nearer
    · rw [muxer]
      cases at_pc : (p.sides r).pc with
      | outside | subscribing => simp [SyncSide.Subscribed, at_pc] at subscribed
      | serialising => exact absurd at_pc elsewhere
      | terminated => exact absurd at_pc running
      | leaving => exact Or.inl (by simp [SyncSide.next, at_pc, same])
      | emplacing =>
        rw [idle at_pc]
        refine Or.inr ?_
        cases r <;> simp [SyncSide.next, at_pc, SyncSide.Subscribed, set, same, leaveStage, PostPc.rank, Role.code,
          syncWithClient, syncWithServer]
      | testing | sleeping =>
        refine Or.inr ?_
        cases r <;> simp [SyncSide.next, at_pc, SyncSide.Subscribed, set, same, leaveStage, Role.code, syncWithClient,
          syncWithServer]

/-- A server posts again, as long as its flag is not set. -/
theorem posts_again (c : Nat) : e.LeadsTo
    (fun p => (p.sides .server).Subscribed ∧ (p.sides .server).ready = false ∧
      (postedUnder readyMsgStr (p.links .server).muxer.log).length = c)
    (fun p => (p.sides .server).ready = true ∨ c < (postedUnder readyMsgStr (p.links .server).muxer.log).length) := by
  refine side_leads built few listed typed fair .server postStage ?_ ?_ ?_
  · exact fun p ⟨subscribed, _⟩ outside => absurd outside subscribed.1
  · rintro p p' ⟨subscribed, unset, same⟩ - stands
    rw [stands.posted]
    cases flag : (p'.sides .server).ready with
    | true => exact Or.inl (Or.inl rfl)
    | false =>
      refine Or.inr ⟨?_, rfl, same⟩
      simpa only [SyncSide.Subscribed, stands.pc] using subscribed
  · rintro p p' reach ⟨subscribed, unset, same⟩ - run
    obtain ⟨next, muxer⟩ := side_next typed run
    obtain ⟨t, -, related⟩ := (refines_rounds built listed typed).reach reach
    have placed := (related .server).placed
    have post := PacketMuxer.reach_postInv (fun _ _ met => met.2)
      (Link.reach_sides (reach_links (fun _ _ met => met) reach .server)).1
    rw [next]
    rcases muxer with ⟨at_pc, posts⟩ | ⟨at_pc, busy, moves⟩ | ⟨elsewhere, idle, muxer⟩
    · obtain ⟨users, log⟩ := (PacketMuxer.step_effect posts).post typed
      rw [users, log, Function.update_self]
      exact Or.inr (by simp [SyncSide.next, at_pc, SyncSide.Subscribed, postStage, unset, same])
    · have about := post.users 0
      have effect := PacketMuxer.step_effect moves
      generalize (p'.links .server).muxer = m at effect ⊢
      cases effect with
      | user step =>
        simp only [Function.update_self]
        generalize (p.links .server).muxer.users 0 = place at step about busy ⊢
        cases step with
        | locked => exact Or.inr (by simp [SyncSide.next, at_pc, SyncSide.Subscribed, postStage, unset, same])
        | threw failed =>
          obtain ⟨⟨-, rfl⟩, -⟩ := about
          simp [ComPacket.make] at failed
        | emplaced =>
          obtain ⟨⟨rfl, -⟩, -⟩ := about
          exact Or.inl (Or.inr (by simp [same]))
        | signalled =>
          exact Or.inr
            (by simp [SyncSide.next, at_pc, SyncSide.Subscribed, postStage, unset, same,
              PacketMuxer.signalPacketPosted])
        | unlocked => exact Or.inr (by simp [SyncSide.next, at_pc, SyncSide.Subscribed, postStage, unset, same])
    · rw [muxer]
      cases at_pc : (p.sides .server).pc with
      | outside | subscribing => simp [SyncSide.Subscribed, at_pc] at subscribed
      | serialising => exact absurd at_pc elsewhere
      | terminated => exact absurd at_pc placed.running
      | leaving =>
        rw [placed.set at_pc] at unset
        cases unset
      | emplacing =>
        rw [idle at_pc]
        exact Or.inr
          (by simp [SyncSide.next, at_pc, SyncSide.Subscribed, postStage, unset, same, Role.code, syncWithClient])
      | testing | sleeping =>
        exact Or.inr
          (by simp [SyncSide.next, at_pc, SyncSide.Subscribed, postStage, unset, same, Role.code, syncWithClient])

/-- What a side has posted behind the handshake is dispatched to its peer. -/
theorem ready_dispatched (r : Role) {n : Nat} (greeted : (e.state n).Greeted) : ∃ m, n ≤ m ∧ ∀ j, m ≤ j →
    (postedUnder readyMsgStr ((e.state n).links r).muxer.log).length ≤
      (dispatchedOf type ((e.state j).links r).demuxer).length := by
  obtain ⟨m, later, all⟩ := Link.posts_dispatched built few (fairSides built listed typed fair r) listed typed n
  refine ⟨m, later, fun j after => ?_⟩
  have greeted' := greeted_kept greeted (Nat.le_trans later after)
  have there : .greeted ControlMessage.hello.packet ∈ ((linkSide listed e r).state j).demuxer.log := by
    cases r
    · exact greeted'.1
    · exact greeted'.2
  have calm := undisturbed ((linkSide listed e r).reach j) (reach_unharmed (e.reach j) r) there
  have sub := ((all j after).resolve_left calm).length_le
  simpa [dispatchedOf, linkSide, Execution.component] using sub

/-- A released side comes to return. -/
theorem returns (r : Role) : e.LeadsTo (fun p => 0 < (p.sides r).released) (fun p => 0 < (p.sides r).done) := by
  intro n released
  by_cases inside : ((e.state n).sides r).Subscribed ∧ ((e.state n).sides r).ready = true
  · obtain ⟨m, later, more⟩ := leaves built few listed typed fair r _ n ⟨inside.1, inside.2, rfl⟩
    exact ⟨m, later, Nat.lt_of_le_of_lt (Nat.zero_le _) more⟩
  · have left : 0 < ((e.state n).sides r).done := by simpa [SyncSide.released, inside] using released
    exact ⟨n, Nat.le_refl n, left⟩

/-- The client comes to be released: until then the server posts, and the client hears it once it has subscribed. -/
theorem client_released (calls : 0 < k) {n : Nat} (greeted : (e.state n).Greeted) :
    ∃ m, n ≤ m ∧ 0 < ((e.state m).sides .client).released := by
  by_contra none
  simp only [not_exists, not_and] at none
  have unreleased (r : Role) {j : Nat} (later : n ≤ j) : ¬ 0 < ((e.state j).sides r).released := by
    cases r with
    | server => exact fun released => none j later (released_client built listed typed (e.reach j) released)
    | client => exact none j later
  have unset (r : Role) {j : Nat} (later : n ≤ j) (subscribed : ((e.state j).sides r).Subscribed) :
      ((e.state j).sides r).ready = false := by
    by_contra set
    exact unreleased r later (by simp [SyncSide.released, subscribed, set])
  -- Both sides come to subscribe, and stay so.
  have subscribes (r : Role) : ∃ m, n ≤ m ∧ ∀ j, m ≤ j → ((e.state j).sides r).Subscribed := by
    obtain ⟨m, later, subscribed⟩ : ∃ m, n ≤ m ∧ ((e.state m).sides r).Subscribed := by
      by_cases already : ((e.state n).sides r).Subscribed
      · exact ⟨n, Nat.le_refl n, already⟩
      · have first : ((e.state n).sides r).done = 0 := by
          have never := unreleased r (Nat.le_refl n)
          simpa [SyncSide.released, already] using never
        exact subscribes built few listed typed fair r n ⟨greeted, by omega, already⟩
    refine ⟨m, later, fun j after => ?_⟩
    induction j, after using Nat.le_induction with
    | base => exact subscribed
    | succ j after still =>
      rcases e.next j with pause | ⟨a, met, run⟩
      · exact pause ▸ still
      · exact subscribed_keeps built listed typed (e.reach j) met run still (unset r (Nat.le_trans later after) still)
  obtain ⟨m₁, later₁, server⟩ := subscribes .server
  obtain ⟨m₂, later₂, client⟩ := subscribes .client
  have start : n ≤ max m₁ m₂ := Nat.le_trans later₁ (Nat.le_max_left _ _)
  have serverIn := server _ (Nat.le_max_left m₁ m₂)
  -- The server posts one more ready message, and all that it has posted is dispatched.
  obtain ⟨m, later, posted⟩ := posts_again built few listed typed fair _ _ ⟨serverIn, unset .server start serverIn, rfl⟩
  have past : n ≤ m := Nat.le_trans start later
  have more := posted.resolve_left (fun set => by
    rw [unset .server past (server m (Nat.le_trans (Nat.le_max_left _ _) later))] at set
    cases set)
  obtain ⟨j, after, all⟩ := ready_dispatched built few listed typed fair .server (greeted_kept greeted past)
  -- But nothing was dispatched, since that would have released the client.
  have same : ∀ i, max m₁ m₂ ≤ i → dispatchedOf type ((e.state i).links .server).demuxer =
      dispatchedOf type ((e.state (max m₁ m₂)).links .server).demuxer := by
    intro i behind
    induction i, behind using Nat.le_induction with
    | base => rfl
    | succ i behind still =>
      rcases e.next i with pause | ⟨a, met, run⟩
      · exact pause ▸ still
      · have told := told_step (r := .server) built listed typed (e.reach i) met run
          (client i (Nat.le_trans (Nat.le_max_right _ _) behind))
        exact (told.resolve_right (none (i + 1) (by omega))).trans still
  have before := dispatched_le built listed typed (e.reach (max m₁ m₂)) .server
  have dispatched := all j (Nat.le_refl j)
  rw [same j (Nat.le_trans later after)] at dispatched
  omega

end Stages

end

/-- Over reliable streams and under a fair scheduler, once both handshakes are done, the server and the client return
from their first calls. -/
theorem first_calls_return (names : List String) (few : names.length ≤ 2 ^ 32 - 2) (ids : IdManager)
    (built : IdManager.ofList names = some ids) (readyMsgStr : String) (listed : readyMsgStr ∈ names)
    (archive : BoolArchive) (k : Nat) (calls : 0 < k) (e : (system ids archive readyMsgStr k).Execution Steady)
    (fair : FairPair e) (n : Nat) (greeted : (e.state n).Greeted) :
    ∃ m, n ≤ m ∧ ∀ j, m ≤ j → ∀ r, 0 < ((e.state j).sides r).done := by
  obtain ⟨i, bound, rfl⟩ := List.mem_iff_getElem.mp listed
  have typed := IdManager.toId_getElem built bound
  obtain ⟨m₁, later₁, released⟩ := client_released built few listed typed fair calls greeted
  obtain ⟨m₂, later₂, client⟩ := returns built few listed typed fair .client m₁ released
  have acknowledged := posted_returned built listed typed (e.reach m₂) client
  obtain ⟨m₃, later₃, all⟩ := ready_dispatched built few listed typed fair .client
    (greeted_kept greeted (Nat.le_trans later₁ later₂))
  have came := Nat.lt_of_lt_of_le acknowledged (all m₃ (Nat.le_refl m₃))
  obtain ⟨m₄, later₄, server⟩ := returns built few listed typed fair .server m₃
    (released_server built listed typed (e.reach m₃) came)
  refine ⟨m₄, by omega, fun j after r => ?_⟩
  cases r with
  | server => exact done_kept built listed typed server after
  | client => exact done_kept built listed typed client (by omega)

/-- One round, after which the threads of both links wait again. -/
def settles : List SyncAction :=
  roundTrip ++ [Role.server, .client].flatMap
    (fun r => sends (List.replicate 6 .send) r ++ [.link r (.demuxer (.ready false))])

/-- The link is parked, if it is unharmed. -/
def atRest (l : Link) : Bool :=
  (match l.muxer.send with | .waiting false => true | _ => false) && l.muxer.txLock = .free &&
  l.muxer.numPosted = l.muxer.numSent && l.muxer.transportError = false && l.muxer.txQueues.total = 0 &&
  (match l.demuxer.receive with | .loop => true | _ => false) && l.demuxer.transportError = false &&
  l.demuxer.input = []

theorem Unharmed.parked {l : Link} (unharmed : Unharmed l) (idle : l.muxer.users 0 = .idle) (rest : atRest l = true) :
    l.Parked := by
  simp only [atRest, Bool.and_eq_true, decide_eq_true_eq] at rest
  obtain ⟨⟨⟨⟨⟨⟨⟨send, free⟩, even⟩, calm⟩, empty⟩, receive⟩, calm'⟩, nothing⟩ := rest
  refine ⟨⟨?_, free, even, calm, KeyedLists.get_eq_nil_of_total empty, fun i => ?_, unharmed.muxer⟩,
    ⟨?_, calm', nothing, unharmed.demuxer⟩⟩
  · split at send
    · assumption
    · cases send
  · by_cases first : i = 0
    · exact first ▸ idle
    · exact unharmed.users i first
  · split at receive
    · assumption
    · cases receive

theorem settles_parked {ids : IdManager} (built : IdManager.ofList ["ready"] = some ids) :
    ∃ p, (system ids oneByte "ready" 1).runUnder Steady {} settles = some p ∧ p.Parked 1 ∧ p.Greeted := by
  have value : ((system ids oneByte "ready" 1).runUnder Steady {} settles).map (fun p =>
      decide ((∀ r ∈ [Role.server, .client], (p.sides r).pc = .outside ∧ (p.sides r).done = 1 ∧ atRest (p.links r)) ∧
        ∀ r ∈ [Role.server, .client], .greeted ControlMessage.hello.packet ∈ (p.links r).demuxer.log)) = some true := by
    cases Option.some.inj built
    decide +kernel
  obtain ⟨p, under, facts⟩ := Option.map_eq_some_iff.mp value
  obtain ⟨rests, greeted⟩ := of_decide_eq_true facts
  have rests (r : Role) := rests r (by cases r <;> simp)
  obtain ⟨met, run⟩ := Execution.Meets.checked under
  have last : (Execution.ofRun _ settles met run).state settles.length = p := Execution.ofRun_last (Nat.le_refl _)
  have reach : (system ids oneByte "ready" 1).ReachUnder Steady p :=
    last ▸ (Execution.ofRun _ settles met run).reach settles.length
  have typed : ids.toId "ready" = some 2 := IdManager.toId_getElem built (i := 0) (by decide)
  obtain ⟨t, -, related⟩ := (refines_rounds built List.mem_cons_self typed).reach reach
  refine ⟨p, under, ⟨fun r => ⟨(rests r).1, (rests r).2.1⟩, fun r => ?_⟩, greeted .server (by simp),
    greeted .client (by simp)⟩
  exact (reach_unharmed reach r).parked ((related r).placed.idle (by rw [(rests r).1]; decide)) (rests r).2.2

theorem first_calls_return_once : ∃ (ids : IdManager) (e : (system ids oneByte "ready" 1).Execution Steady) (n : Nat),
    IdManager.ofList ["ready"] = some ids ∧ FairPair e ∧ (e.state n).Greeted ∧
    ∃ m, n ≤ m ∧ ∀ j, m ≤ j → ∀ r, 0 < ((e.state j).sides r).done := by
  obtain ⟨ids, built⟩ : ∃ ids, IdManager.ofList ["ready"] = some ids := ⟨_, rfl⟩
  obtain ⟨p, under, parked, greeted⟩ := settles_parked built
  obtain ⟨met, run⟩ := Execution.Meets.checked under
  obtain ⟨e, fair, n, now⟩ := exists_endless (by simp [settles, sends]) met run parked
  have there : (e.state n).Greeted := now ▸ greeted
  exact ⟨ids, e, n, built, fair, there, first_calls_return ["ready"] (by decide) ids built "ready" (by decide) oneByte 1
    Nat.one_pos e fair n there⟩

end SyncPair

end PacketComms
