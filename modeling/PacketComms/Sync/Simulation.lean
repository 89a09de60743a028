import PacketComms.Sync.Calls

namespace PacketComms.SyncPair

theorem ReadyPost.short {archive : BoolArchive} {readyMsgStr : String} (name : String) (args : PacketArgs)
    (ready : ReadyPost archive readyMsgStr name args) : args.Short := by
  obtain ⟨-, rfl⟩ := ready
  intro type packet built
  cases Option.some.inj built
  exact archive.short true

section

variable {names : List String} {ids : IdManager} {archive : BoolArchive} {readyMsgStr : String}
variable {type : PacketType} {k : Nat}

/-- The name of a list is not the one of the control messages. -/
theorem listed_user (built : IdManager.ofList names = some ids) (listed : readyMsgStr ∈ names) :
    readyMsgStr ≠ IdManager.controlString := by
  rintro rfl
  have distinct := IdManager.ofList_nodup built
  simp [listed] at distinct

/-- Under the name of the ready messages nothing else is posted. -/
theorem posted_ready {m : PacketMuxer} (post : PacketMuxer.PostInv (ReadyPost archive readyMsgStr) ids m)
    (user : readyMsgStr ≠ IdManager.controlString) {packet : SharedPacket}
    (member : packet ∈ postedUnder readyMsgStr m.log) : packet.packet.data = archive.encode true := by
  obtain ⟨args, origin, made⟩ := post.posted readyMsgStr packet ((mem_postedUnder ..).mp member)
  rcases origin with ⟨⟨-, rfl⟩, -⟩ | ⟨control, -⟩
  · cases packet with
    | mk addr p =>
      have same : (⟨p.type, archive.encode true⟩ : ComPacket) = p := Option.some.inj made
      exact congrArg ComPacket.data same.symm
  · exact absurd control user

/-- What of the ready messages is dispatched was posted before, in this order. -/
theorem dispatched_ready (built : IdManager.ofList names = some ids) (typed : ids.toId readyMsgStr = some type)
    {l : Link} (reach : (Link.system ids).ReachUnder (Link.Reliable (ReadyPost archive readyMsgStr)) l) :
    dispatchedOf type l.demuxer <+: (postedUnder readyMsgStr l.muxer.log).map (·.packet) :=
  Link.dispatched_sub built ReadyPost.short reach typed (fun _ _ ready _ => ready.1)

/-- A step of a link that no call makes. -/
theorem related_link {C : SyncPair → SyncAction → Prop} (steady : ∀ p action, C p action → Steady p action)
    (built : IdManager.ofList names = some ids) (listed : readyMsgStr ∈ names)
    (typed : ids.toId readyMsgStr = some type) {p p' : SyncPair} {t : Rounds ComPacket} {r : Role} {action : LinkAction}
    (reach : (system ids archive readyMsgStr k).ReachUnder C p)
    (reach' : (system ids archive readyMsgStr k).ReachUnder C p')
    (rel : Related readyMsgStr type p t) (internal : action.internal = true)
    (run : p.linkStep ids archive r action = some p') :
    Related readyMsgStr type p' t ∨ action.delivers type (p.links r) = true ∧
      ∃ t', Rounds.step k t (.deliver r) = some t' ∧ Related readyMsgStr type p' t' := by
  obtain ⟨muxer, demuxer⟩ := Link.reach_sides (reach_links steady reach r)
  have post := PacketMuxer.reach_postInv (fun _ _ met => met.2) muxer
  have user := listed_user built listed
  cases action with
  | muxer action => exact Or.inl (related_muxer rel post user internal run)
  | demuxer action =>
    have delivered : ∀ l, Link.step ids (p.links r) (.demuxer action) = some l →
        dispatchedOf type l.demuxer <+: (postedUnder readyMsgStr l.muxer.log).map (·.packet) := by
      intro l moved
      obtain ⟨l', moved', links, -⟩ := linkStep_cases run
      rw [moved] at moved'
      cases moved'
      have after := reach_links steady reach' r
      rw [links, Function.update_self] at after
      exact dispatched_ready built typed after
    rcases related_demuxer (k := k) rel (PacketDemuxer.reach_dispatchInv built demuxer)
        (fun packet member => posted_ready post user member) delivered internal run with unseen | seen
    · exact Or.inl unseen
    · exact Or.inr seen

/-- A step of one of the two threads. -/
theorem related_side {C : SyncPair → SyncAction → Prop} (steady : ∀ p action, C p action → Steady p action)
    (built : IdManager.ofList names = some ids) (typed : ids.toId readyMsgStr = some type)
    {p p' : SyncPair} {t : Rounds ComPacket} {r : Role} (reach : (system ids archive readyMsgStr k).ReachUnder C p)
    (reach' : (system ids archive readyMsgStr k).ReachUnder C p') (rel : Related readyMsgStr type p t)
    (run : p.sideStep ids archive readyMsgStr k r = some p') :
    Related readyMsgStr type p' t ∨ ∃ b t', (∀ r', b ≠ .deliver r') ∧ Rounds.step k t b = some t' ∧
      Related readyMsgStr type p' t' := by
  obtain ⟨muxer, -⟩ := Link.reach_sides (reach_links steady reach r)
  obtain ⟨-, demuxer⟩ := Link.reach_sides (reach_links steady reach r.peer)
  have post := PacketMuxer.reach_postInv (fun _ _ met => met.2) muxer
  cases at_pc : (p.sides r).pc <;> simp only [sideStep, at_pc] at run
  case outside =>
    simp only [Option.ite_none_right_eq_some, Option.some.injEq] at run
    obtain ⟨more, rfl⟩ := run
    obtain ⟨t', step, next⟩ := related_enter rel at_pc more
    exact Or.inr ⟨.enter r, t', by simp, step, next⟩
  case subscribing =>
    rw [typed] at run
    obtain ⟨middle, moved, rfl⟩ := Option.map_eq_some_iff.mp run
    obtain ⟨t', step, next⟩ := related_listen rel typed (PacketDemuxer.reach_dispatchInv built demuxer) at_pc moved
    exact Or.inr ⟨.listen r, t', by simp, step, next⟩
  case testing =>
    cases Option.some.inj run
    exact Or.inl (related_goesOn rel (Or.inl ⟨at_pc, rfl⟩))
  case serialising =>
    obtain ⟨middle, moved, rfl⟩ := Option.map_eq_some_iff.mp run
    exact Or.inl (related_calls rel typed at_pc moved)
  case emplacing =>
    split at run
    · rename_i returned
      cases Option.some.inj run
      exact Or.inl (related_goesOn rel (Or.inr (Or.inr ⟨at_pc, returned, rfl⟩)))
    · rcases related_emplaces rel post at_pc run with unseen | ⟨a, t', step, next⟩
      · exact Or.inl unseen
      · exact Or.inr ⟨.send r a, t', by simp, step, next⟩
  case sleeping =>
    cases Option.some.inj run
    exact Or.inl (related_goesOn rel (Or.inr (Or.inl ⟨at_pc, rfl⟩)))
  case leaving =>
    obtain ⟨middle, moved, rfl⟩ := Option.map_eq_some_iff.mp run
    have left : ∀ l, Link.step ids (p.links r.peer) (.demuxer (.destruct 0)) = some l →
        PacketDemuxer.DispatchInv l.demuxer := by
      intro l step
      obtain ⟨l', step', after⟩ := linkStep_setSide moved
      rw [step] at step'
      cases step'
      have there := reach_links steady reach' r.peer
      simp only [after, Function.update_self] at there
      exact PacketDemuxer.reach_dispatchInv built (Link.reach_sides there).2
    obtain ⟨t', step, next⟩ := related_leave rel left at_pc moved
    exact Or.inr ⟨.leave r, t', by simp, step, next⟩
  case terminated => cases run

/-- The code's synchronisation is one in rounds, and one that keeps its rounds apart if the
code does. -/
theorem related_step {C : SyncPair → SyncAction → Prop} (steady : ∀ p action, C p action → Steady p action)
    (built : IdManager.ofList names = some ids) (listed : readyMsgStr ∈ names)
    (typed : ids.toId readyMsgStr = some type) {p p' : SyncPair} {t : Rounds ComPacket} {action : SyncAction}
    (reach : (system ids archive readyMsgStr k).ReachUnder C p) (met : C p action) (rel : Related readyMsgStr type p t)
    (run : step ids archive readyMsgStr k p action = some p') :
    Related readyMsgStr type p' t ∨ ∃ b t', (Unmixed type p action → Rounds.Unmixed t b) ∧
      Rounds.step k t b = some t' ∧ Related readyMsgStr type p' t' := by
  have reach' := reach.next met run
  cases action with
  | side r =>
    rcases related_side steady built typed reach reach' rel run with unseen | ⟨b, t', other, step, next⟩
    · exact Or.inl unseen
    · refine Or.inr ⟨b, t', fun _ => ?_, step, next⟩
      cases b with
      | deliver r' => exact absurd rfl (other r')
      | _ => trivial
  | link r action =>
    simp only [step, Option.ite_none_right_eq_some] at run
    obtain ⟨internal, run⟩ := run
    rcases related_link steady built listed typed reach reach' rel internal run with unseen | ⟨delivers, t', step, next⟩
    · exact Or.inl unseen
    · refine Or.inr ⟨.deliver r, t', fun unmixed => ?_, step, next⟩
      have server := (rel .server).party
      have client := (rel .client).party
      cases r with
      | server =>
        intro waits
        rw [client, server] at *
        by_cases subscribed : (p.sides .client).Subscribed
        · cases flag : (p.sides .client).ready with
          | false =>
            have begun : (p.sides .client).done < (p.sides .server).entered := unmixed delivers subscribed flag
            simpa [SyncSide.party, SyncSide.released, subscribed, flag] using begun
          | true => simp [SyncSide.party, SyncSide.released, subscribed, flag] at waits
        · simp [SyncSide.party, SyncSide.released, subscribed] at waits
      | client =>
        have subscribed : (p.sides .server).Subscribed := unmixed delivers
        change (t.party .server).left < (t.party .server).listened
        simp [server, SyncSide.party, subscribed]

theorem related_start : Related readyMsgStr type (system ids archive readyMsgStr k).start
    (Rounds.system ComPacket k).start := by
  intro r
  refine ⟨⟨fun _ => rfl, by simp [system], by simp [system], by simp [system], by simp [system]⟩,
    ⟨rfl, by simp [system, SyncSide.Subscribed], fun _ => ⟨rfl, rfl⟩⟩, ?_, rfl, rfl⟩
  cases r <;> rfl

/-- Whatever the threads, the links and the two programs do is a run of the rounds. -/
theorem refines_rounds (built : IdManager.ofList names = some ids) (listed : readyMsgStr ∈ names)
    (typed : ids.toId readyMsgStr = some type) :
    TransitionSystem.Simulation (system ids archive readyMsgStr k) (Rounds.system ComPacket k)
      Steady (fun _ _ => True) (Related readyMsgStr type) where
  start := related_start
  step := by
    intro p action p' t reach related met run
    rcases related_step (fun _ _ met => met) built listed typed reach met related run with
      unseen | ⟨b, t', -, step, next⟩
    · exact Or.inl unseen
    · exact Or.inr ⟨b, t', trivial, step, next⟩

/-- Where the code does not mix up its rounds, the run of the rounds does not either. -/
theorem refines_unmixed (built : IdManager.ofList names = some ids) (listed : readyMsgStr ∈ names)
    (typed : ids.toId readyMsgStr = some type) :
    TransitionSystem.Simulation (system ids archive readyMsgStr k) (Rounds.system ComPacket k)
      (fun p action => Steady p action ∧ Unmixed type p action) Rounds.Unmixed (Related readyMsgStr type) where
  start := related_start
  step := by
    intro p action p' t reach related met run
    rcases related_step (fun _ _ met => met.1) built listed typed reach met related run with
      unseen | ⟨b, t', apart, step, next⟩
    · exact Or.inl unseen
    · exact Or.inr ⟨b, t', apart met.2, step, next⟩

/-- The calls do not interfere: the client returns only from a call that the server has begun, the server
only from one that the client has begun, and a server is not left waiting by a client that has
returned from all its calls and whose acknowledgements have arrived. -/
theorem sync_rounds (names : List String) (ids : IdManager) (built : IdManager.ofList names = some ids)
    (readyMsgStr : String) (listed : readyMsgStr ∈ names) (type : PacketType) (typed : ids.toId readyMsgStr = some type)
    (archive : BoolArchive) (k : Nat) (p : SyncPair)
    (reach : (system ids archive readyMsgStr k).ReachUnder
      (fun p action => Steady p action ∧ Unmixed type p action) p) :
    (p.sides .client).done ≤ (p.sides .server).entered ∧ (p.sides .server).done ≤ (p.sides .client).entered ∧
    ¬ ((p.sides .client).done = k ∧ inFlight readyMsgStr type (p.links .client) = 0 ∧ (p.sides .server).Blocked) := by
  obtain ⟨t, rounds, related⟩ := (refines_unmixed built listed typed).reach reach
  have server := (related .server).party
  have client := (related .client).party
  have first := Rounds.client_follows rounds
  have second := Rounds.server_follows rounds
  rw [server, client] at first second
  refine ⟨first, second, ?_⟩
  rintro ⟨finished, arrived, inside, unset⟩
  have posted := (related .client).posted
  have heard : (t.channel .client).taken = dispatchedOf type (p.links .client).demuxer := (related .server).taken
  have empty : (t.channel .client).queue = [] := by
    have balance := (t.channel .client).length_balance
    rw [posted, heard, List.length_map, dispatchedOf, List.length_map] at balance
    unfold inFlight at arrived
    exact List.eq_nil_of_length_eq_zero (by omega)
  have released := Rounds.server_released rounds (by rw [client]; exact finished) empty
  have bound := ((Rounds.reach_countInv rounds).orderly .server).bound
  rw [server] at released bound
  simp only [SyncSide.party, SyncSide.released, SyncSide.entered, inside, unset, Bool.false_eq_true, and_false,
    if_false] at released bound
  omega

/-- More acknowledgements were dispatched than calls of the server were released. -/
def Lost (type : PacketType) (p : SyncPair) : Prop :=
  (p.sides .server).released < (dispatchedOf type (p.links .client).demuxer).length

theorem related_lost {p : SyncPair} {t : Rounds ComPacket} (related : Related readyMsgStr type p t) :
    Lost type p ↔ (t.party .server).released < (t.channel .client).taken.length := by
  have heard : (t.channel .client).taken = dispatchedOf type (p.links .client).demuxer := (related .server).taken
  rw [(related .server).party, heard]
  exact Iff.rfl

/-- A lost acknowledgement stays lost, and the server does not return from all its calls. -/
theorem lost_acknowledgement (built : IdManager.ofList names = some ids) (listed : readyMsgStr ∈ names)
    (typed : ids.toId readyMsgStr = some type) {p p' : SyncPair} {actions : List SyncAction}
    (reach : (system ids archive readyMsgStr k).ReachUnder Steady p) (lost : Lost type p)
    (run : (system ids archive readyMsgStr k).runUnder Steady p actions = some p') : (p'.sides .server).done < k := by
  induction actions generalizing p with
  | nil =>
    cases Option.some.inj run
    obtain ⟨t, rounds, related⟩ := (refines_rounds built listed typed).reach reach
    have stays : (Rounds.system ComPacket k).run t [] = some t := rfl
    have behind := Rounds.lost_answer rounds ((related_lost related).mp lost) stays
    rw [(related .server).party] at behind
    exact behind
  | cons action actions ih =>
    simp only [TransitionSystem.runUnder, Option.ite_none_right_eq_some] at run
    obtain ⟨met, run⟩ := run
    obtain ⟨middle, step, rest⟩ := Option.bind_eq_some_iff.mp run
    obtain ⟨t, rounds, related⟩ := (refines_rounds built listed typed).reach reach
    refine ih (reach.next met step) ?_ rest
    have before := (related_lost related).mp lost
    rcases related_step (fun _ _ met => met) built listed typed reach met related step with
      unseen | ⟨b, t', -, moved, next⟩
    · exact (related_lost unseen).mpr before
    · exact (related_lost next).mpr ((Rounds.step_effect moved).lost before)

end

/-- An archive that writes a `bool` as one byte. -/
def oneByte : BoolArchive where
  encode b := [if b then 1 else 0]
  decode
    | [byte] => some (byte != 0)
    | _ => none
  faithful b := by cases b <;> decide
  short b := by cases b <;> decide

/-- The threads of a link send a packet with one byte of payload. -/
def writesOne : List MuxerAction :=
  [.send, .write (.count 4), .send, .write (.count 4), .send, .write (.count 1), .send, .send, .send, .send]

def sends (actions : List MuxerAction) (r : Role) : List SyncAction :=
  actions.map (fun action => .link r (.muxer action))

/-- The threads of a link receive a packet that has arrived. -/
def hears (packet : ComPacket) (r : Role) : List SyncAction :=
  (PacketDemuxer.frameActions packet ++ [DemuxerAction.receive, .receive]).map (fun action => .link r (.demuxer action))

/-- The handshake of the link that `r` sends by. -/
def handshake (r : Role) : List SyncAction :=
  sends (List.replicate 9 .send ++ [.iterate [1], .send] ++ writesOne ++ List.replicate 4 .send) r ++
  hears ControlMessage.hello.packet r

/-- The send thread is woken and sends `n` ready messages. -/
def wakes (n : Nat) : Role → List SyncAction :=
  sends ([.wake false, .send, .iterate [2, 1], .send] ++ (List.replicate n writesOne).flatten)

/-- The side takes its next `n` steps. -/
def goes (n : Nat) (r : Role) : List SyncAction := List.replicate n (.side r)

/-- The server has sent two ready messages before the client hears the first one; the second is
heard by the client's next call. -/
def overtaken : List SyncAction :=
  handshake .server ++ handshake .client ++ goes 2 .client ++ goes 17 .server ++ wakes 2 .server ++
  hears ⟨2, [1]⟩ .server ++ goes 10 .client ++ hears ⟨2, [1]⟩ .server ++ goes 8 .client

theorem sync_rounds_overtaken : ∃ ids : IdManager, IdManager.ofList ["ready"] = some ids ∧
    ¬ ∀ p, (system ids oneByte "ready" 2).ReachUnder Steady p → (p.sides .client).done ≤ (p.sides .server).entered := by
  obtain ⟨ids, built, p, reach, last⟩ : ∃ ids, IdManager.ofList ["ready"] = some ids ∧
      ∃ p, (system ids oneByte "ready" 2).ReachUnder Steady p ∧
        ((p.sides .client).done, (p.sides .server).entered) = (2, 1) :=
    ⟨_, rfl, TransitionSystem.ReachUnder.start.checked
      (fun p : SyncPair => ((p.sides .client).done, (p.sides .server).entered)) overtaken (by decide +kernel)⟩
  obtain ⟨finished, begun⟩ := Prod.mk.inj last
  refine ⟨ids, built, fun all => ?_⟩
  have first := all p reach
  omega

/-- The client hears one ready message and posts its acknowledgement. -/
def acknowledges : List SyncAction :=
  handshake .server ++ handshake .client ++ goes 2 .client ++ goes 9 .server ++ wakes 1 .server ++
  hears ⟨2, [1]⟩ .server ++ goes 8 .client

/-- One round, with one ready message on each side. -/
def roundTrip : List SyncAction := acknowledges ++ wakes 1 .client ++ hears ⟨2, [1]⟩ .client ++ goes 3 .server

/-- A second round, begun when the send threads wait again. -/
def twoRounds : List SyncAction :=
  roundTrip ++ sends (List.replicate 6 .send) .server ++ sends (List.replicate 6 .send) .client ++
  goes 2 .client ++ goes 9 .server ++ wakes 1 .server ++ hears ⟨2, [1]⟩ .server ++ goes 8 .client ++
  wakes 1 .client ++ hears ⟨2, [1]⟩ .client ++ goes 3 .server

theorem sync_rounds_twice : ∃ (ids : IdManager) (p : SyncPair), IdManager.ofList ["ready"] = some ids ∧
    ((p.sides .client).done, (p.sides .server).done) = (2, 2) ∧
    (p.sides .client).done ≤ (p.sides .server).entered ∧ (p.sides .server).done ≤ (p.sides .client).entered ∧
    ¬ ((p.sides .client).done = 2 ∧ inFlight "ready" 2 (p.links .client) = 0 ∧ (p.sides .server).Blocked) := by
  obtain ⟨ids, built, typed, p, reach, last⟩ : ∃ ids, IdManager.ofList ["ready"] = some ids ∧
      ids.toId "ready" = some 2 ∧
      ∃ p, (system ids oneByte "ready" 2).ReachUnder (fun p action => Steady p action ∧ Unmixed 2 p action) p ∧
        ((p.sides .client).done, (p.sides .server).done) = (2, 2) :=
    ⟨_, rfl, rfl, TransitionSystem.ReachUnder.start.checked
      (fun p : SyncPair => ((p.sides .client).done, (p.sides .server).done)) twoRounds (by decide +kernel)⟩
  exact ⟨ids, p, built, last,
    sync_rounds ["ready"] ids built "ready" List.mem_cons_self 2 typed oneByte 2 p reach⟩

end PacketComms.SyncPair
