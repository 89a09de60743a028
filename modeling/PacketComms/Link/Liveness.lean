import PacketComms.Link.Idling

namespace PacketComms.Link

section Delivery

variable {names : List String} {ids : IdManager} {e : (system ids).Execution (Reliable (ShortPost names))}

/-- One side is being destroyed, or a packet was sent ahead of the Hello message. -/
def Disturbed (l : Link) : Prop :=
  l.muxer.destructor ≠ .notCalled ∨ l.demuxer.destructor ≠ .notCalled ∨
    ∃ p, l.muxer.sent.head? = some p ∧ p ≠ ControlMessage.hello.packet

/-- All that was posted by now under a type is written, in its order, -/
theorem all_written (built : IdManager.ofList names = some ids) (few : names.length ≤ 2 ^ 32 - 2) (fair : FairSides e)
    (type : PacketType) (n : Nat) : ∃ m, n ≤ m ∧ ((e.state m).Disturbed ∨
      postsOf type (e.state n).muxer.log <+: (e.state m).muxer.written.filter (·.packet.type = type)) := by
  obtain ⟨m, later, done⟩ := PacketMuxer.all_popped (proper_muxer built few) built fair.muxer type n
  refine ⟨m, later, ?_⟩
  have muxer := (reach_sides (e.reach m)).1
  cases flag : (e.state m).muxer.transportError with
  | true => exact Or.inl (Or.inl ((PacketMuxer.reach_calmInv (fun _ _ met => met.1) muxer).flag flag))
  | false =>
    have popped := done.resolve_left (fun noted => by
      rw [show (e.state m).muxer.transportError = true from noted] at flag
      cases flag)
    exact Or.inr (popped.trans ((PacketMuxer.popped_written muxer flag).filter _))

/-- and what is written is dealt with. -/
theorem all_dealt (built : IdManager.ofList names = some ids) (few : names.length ≤ 2 ^ 32 - 2) (fair : FairSides e)
    (n : Nat) : ∃ m, n ≤ m ∧ ((e.state m).Disturbed ∨
      (e.state n).muxer.written.map (·.packet) <+: dealtWith (e.state m).demuxer.log) := by
  have reach := e.reach n
  have sent := PacketMuxer.reach_sentInv (reach_sides reach).1
  have small : ∀ p ∈ (e.state n).muxer.written.map (·.packet), p.data.length < 2 ^ 32 := by
    intro p member
    have handed := ((PacketMuxer.reach_writeInv (reach_sides reach).1).sub.map (·.packet)).subset member
    have bound := (sent_sound built few reach handed).1.2
    omega
  have alive : (e.state n).demuxer.receive ≠ .aborted :=
    PacketDemuxer.reach_alive (fun _ _ met => met.1) (reach_demuxer built few reach)
  have arrived : ComPacket.code.stream ((e.state n).muxer.written.map (·.packet)) <+: (e.state n).demuxer.arrived := by
    rw [(reach_streamInv reach).same alive]
    obtain ⟨part, split, -⟩ := sent
    exact ⟨part, split.symm⟩
  have settle {m : Nat} (done : (e.state m).demuxer.transportError = true ∨
      (e.state n).muxer.written.map (·.packet) <+: dealtWith (e.state m).demuxer.log) :
      (e.state m).Disturbed ∨ (e.state n).muxer.written.map (·.packet) <+: dealtWith (e.state m).demuxer.log :=
    done.imp (fun flag => Or.inr (demuxer_alarm built few (e.reach m) flag)) id
  rcases PacketDemuxer.arrived_due arrived with due | done
  · obtain ⟨m, later, done⟩ := PacketDemuxer.due_dealt live_demuxer (fun _ _ met => met.1)
      (fair.demuxer built few) small n due
    exact ⟨m, later, settle done⟩
  · exact ⟨n, Nat.le_refl n, settle done⟩

/-- What is dealt with of a name's packets is dispatched. -/
theorem dispatches_dealt (built : IdManager.ofList names = some ids) (few : names.length ≤ 2 ^ 32 - 2) {l : Link}
    (reach : (system ids).ReachUnder (Reliable (ShortPost names)) l) {name : String} (listed : name ∈ names)
    {type : PacketType} (typed : ids.toId name = some type) : l.Disturbed ∨
      ((dispatches l.demuxer.log).filter (·.packet.type = type)).map (·.packet) =
        (dealtWith l.demuxer.log).filter (·.type = type) := by
  have control := PacketDemuxer.reach_controlInv (reach_sides reach).2
  by_cases greeted : ∀ p, .greeted p ∈ l.demuxer.log → p.type = IdManager.controlPacket
  · exact Or.inr (dealtWith_filter (IdManager.toId_listed built few listed typed).2 control.handled greeted)
  · simp only [not_forall] at greeted
    obtain ⟨p, member, other⟩ := greeted
    obtain ⟨-, flag, -⟩ := (control.greeted p member).resolve_left other
    exact Or.inl (Or.inr (demuxer_alarm built few reach flag))

theorem log_grows {l l' : Link} {action : LinkAction} (run : step ids l action = some l') :
    l.demuxer.log <+: l'.demuxer.log := by
  rcases step_cases run with ⟨a, rfl, -, arrives⟩ | ⟨a, -, -, moved, -⟩
  · cases arrived : PacketDemuxer.step ids l.demuxer (.arrive (l'.muxer.wire.drop l.muxer.wire.length)) with
    | none =>
      rw [arrived] at arrives
      exact arrives ▸ List.prefix_rfl
    | some d =>
      rw [arrived] at arrives
      exact arrives ▸ (PacketDemuxer.step_effect arrived).log_grows
  · exact (PacketDemuxer.step_effect moved).log_grows

theorem run_log_grows {l l' : Link} {actions : List LinkAction} (run : (system ids).run l actions = some l') :
    l.demuxer.log <+: l'.demuxer.log := by
  induction actions generalizing l with
  | nil =>
    cases Option.some.inj run
    exact List.prefix_rfl
  | cons a actions ih =>
    obtain ⟨middle, step, rest⟩ := Option.bind_eq_some_iff.mp run
    exact (log_grows step).trans (ih rest)

theorem log_kept (e : (system ids).Execution (Reliable (ShortPost names))) {n m : Nat} (later : n ≤ m) :
    (e.state n).demuxer.log <+: (e.state m).demuxer.log :=
  TransitionSystem.Execution.lasts (P := fun l : Link => (e.state n).demuxer.log <+: l.demuxer.log)
    (fun _ _ _ _ before _ run => before.trans (log_grows run)) List.prefix_rfl later

/-- What is disturbed stays so. -/
theorem Disturbed.lasts (e : (system ids).Execution (Reliable (ShortPost names))) {n m : Nat}
    (disturbed : (e.state n).Disturbed) (later : n ≤ m) : (e.state m).Disturbed := by
  refine TransitionSystem.Execution.lasts (P := Disturbed) ?_ disturbed later
  intro l a l' reach now _ run
  have moves : step ids l a = some l' := run
  rcases step_cases moves with ⟨a, -, moved, arrives⟩ | ⟨a, -, -, moved, same⟩
  · have effect := PacketMuxer.step_effect moved
    rcases now with muxer | demuxer | ⟨p, head, other⟩
    · exact Or.inl (effect.stays_called muxer)
    · refine Or.inr (Or.inl ?_)
      cases arrived : PacketDemuxer.step ids l.demuxer (.arrive (l'.muxer.wire.drop l.muxer.wire.length)) with
      | none => rwa [arrives, arrived]
      | some d =>
        rw [arrives, arrived]
        exact (PacketDemuxer.step_effect arrived).called demuxer
    · refine Or.inr (Or.inr ⟨p, ?_, other⟩)
      obtain ⟨more, grown⟩ := (effect.queueChange (PacketMuxer.reach_lockInv (reach_sides reach).1)).log_grows
      obtain ⟨rest, sent⟩ := List.head?_eq_some_iff.mp head
      have longer : l'.muxer.sent = p :: (rest ++ (hands more).map (·.packet)) := by
        rw [PacketMuxer.sent, ← grown, hands, List.filterMap_append, List.map_append, ← hands, ← PacketMuxer.sent, sent]
        rfl
      rw [longer, List.head?_cons]
  · rw [Disturbed, same]
    exact now.imp id (Or.imp (fun called => (PacketDemuxer.step_effect moved).called called) id)

/-- All that was posted by now under a name is dispatched, in its order. -/
theorem posts_dispatched (built : IdManager.ofList names = some ids) (few : names.length ≤ 2 ^ 32 - 2)
    (fair : FairSides e)
    {name : String} (listed : name ∈ names) {type : PacketType} (typed : ids.toId name = some type) (n : Nat) :
    ∃ m, n ≤ m ∧ ∀ k, m ≤ k → (e.state k).Disturbed ∨ (postedUnder name (e.state n).muxer.log).map (·.packet) <+:
      ((dispatches (e.state k).demuxer.log).filter (·.packet.type = type)).map (·.packet) := by
  obtain ⟨m₁, later₁, written⟩ := all_written built few fair type n
  obtain ⟨m₂, later₂, dealt⟩ := all_dealt built few fair m₁
  refine ⟨m₂, Nat.le_trans later₁ later₂, fun k later => ?_⟩
  rcases written with disturbed | written
  · exact Or.inl (disturbed.lasts e (Nat.le_trans later₂ later))
  rcases dealt with disturbed | dealt
  · exact Or.inl (disturbed.lasts e later)
  have post := PacketMuxer.reach_postInv (fun _ _ met => met.2) (reach_sides (e.reach n)).1
  have single : ∀ other args, ShortPost names other args → ids.toId other = some type → other = name := by
    intro other args may same
    exact IdManager.toId_injective built (by omega) may.1 listed (same.trans typed.symm)
  refine (dispatches_dealt built few (e.reach k) listed typed).imp id (fun dispatched => ?_)
  rw [dispatched, ← post.postsOf_eq (IdManager.toId_controlString built) typed single
    (IdManager.toId_listed built few listed typed).2]
  have out := written.map (·.packet)
  have same : ((e.state m₁).muxer.written.filter (·.packet.type = type)).map (·.packet) =
      ((e.state m₁).muxer.written.map (·.packet)).filter (·.type = type) := by
    rw [List.filter_map]
    rfl
  exact (same ▸ out).trans ((dealt.trans ((log_kept e later).filterMap _)).filter _)

end Delivery

/-- End to end: over a reliable stream and under a fair scheduler, all payloads that were posted by now under a name
reach the callback of a subscriber of that name that is there from the first dispatch on, in their order, unless one
side is destroyed or a packet was sent ahead of the Hello message. -/
theorem posts_delivered (names : List String) (few : names.length ≤ 2 ^ 32 - 2) (ids : IdManager)
    (built : IdManager.ofList names = some ids) (e : (system ids).Execution (Reliable (ShortPost names)))
    (fair : FairSides e) (name : String) (listed : name ∈ names) (n : Nat) : (∃ k, (e.state k).Disturbed) ∨
      ∃ m, ∀ k, m ≤ k → ∀ s : PacketSubscriber, ids.toId name = some s.type → Standing s (e.state k).demuxer.log →
        (postedUnder name (e.state n).muxer.log).map (·.packet.data) <+:
          (callsOf s (e.state k).demuxer.log).map (·.packet.data) := by
  by_cases disturbed : ∃ k, (e.state k).Disturbed
  · exact Or.inl disturbed
  · simp only [not_exists] at disturbed
    obtain ⟨type, issued⟩ : ∃ type, ids.toId name = some type := by
      obtain ⟨i, bound, rfl⟩ := List.mem_iff_getElem.mp listed
      exact ⟨_, IdManager.toId_getElem built bound⟩
    obtain ⟨m, -, dispatched⟩ := posts_dispatched built few fair listed issued n
    refine Or.inr ⟨m, fun k later s typed standing => ?_⟩
    obtain rfl := Option.some.inj (issued.symm.trans typed)
    rw [PacketDemuxer.callsOf_standing built (reach_sides (e.reach k)).2 standing]
    have payloads := ((dispatched k later).resolve_left (disturbed k)).map (·.data)
    rwa [List.map_map, List.map_map] at payloads

/-- One packet is posted and delivered, and both sides wait again. -/
def deliversOne : List LinkAction := postAndReceive "A" ++ List.replicate 8 (.muxer .send)

theorem deliversOne_reliable : ∀ action ∈ deliversOne, ∀ l, Reliable (ShortPost ["A"]) l action := by
  intro action member l
  rcases List.mem_append.mp member with first | sends
  · exact postAndReceive_reliable ["A"] "A" List.mem_cons_self action first l
  · rw [List.eq_of_mem_replicate sends]
    exact ⟨trivial, trivial⟩

theorem loops_reliable (allowed : String → PacketArgs → Prop) (l : Link) (action : LinkAction) (loops : Loops action) :
    Reliable allowed l action := by
  cases action with
  | muxer a =>
    cases a with
    | send | wake | iterate => exact ⟨trivial, trivial⟩
    | _ => cases loops
  | demuxer a =>
    simp only [Loops, PacketDemuxer.idleTurn, List.mem_cons, List.not_mem_nil, or_false] at loops
    rcases loops with rfl | rfl <;> trivial

theorem deliversOne_parked {ids : IdManager} (built : IdManager.ofList ["A"] = some ids) :
    ∃ l, (system ids).run {} deliversOne = some l ∧ l.Parked ∧ l.muxer.sent.head? = some ControlMessage.hello.packet ∧
      (postedUnder "A" l.muxer.log).map (·.packet.data) = [[7]] ∧
      l.demuxer.log = [.subscribed ⟨0, 2⟩, .greeted ControlMessage.hello.packet, .dispatched ⟨1, 2, [7]⟩ [⟨0, 2⟩]] := by
  cases Option.some.inj built
  refine ⟨_, rfl, ⟨⟨rfl, rfl, rfl, rfl, fun type => ?_, fun i => ?_, rfl⟩, ⟨rfl, rfl, rfl, rfl⟩⟩, rfl, rfl, rfl⟩
  · exact KeyedLists.get_eq_nil_of_total (by rfl) type
  · cases i <;> rfl

theorem posts_delivered_one : ∃ (ids : IdManager) (e : (system ids).Execution (Reliable (ShortPost ["A"]))),
    IdManager.ofList ["A"] = some ids ∧ FairSides e ∧ (∀ k, ¬ (e.state k).Disturbed) ∧
    ∃ n m, (postedUnder "A" (e.state n).muxer.log).map (·.packet.data) = [[7]] ∧
      ∃ k, m ≤ k ∧ Standing ⟨0, 2⟩ (e.state k).demuxer.log ∧
        (postedUnder "A" (e.state n).muxer.log).map (·.packet.data) <+:
          (callsOf ⟨0, 2⟩ (e.state k).demuxer.log).map (·.packet.data) := by
  obtain ⟨ids, built⟩ : ∃ ids, IdManager.ofList ["A"] = some ids := ⟨_, rfl⟩
  obtain ⟨l, run, parked, first, payloads, log⟩ := deliversOne_parked built
  obtain ⟨e, fair, comes⟩ := exists_endless (by decide) (.of_forall deliversOne_reliable _) run parked
    (loops_reliable (ShortPost ["A"]))
  have calm (k : Nat) : ¬ (e.state k).Disturbed := by
    intro disturbed
    obtain ⟨n, later, now⟩ := comes k
    rcases now ▸ Disturbed.lasts e disturbed later with muxer | demuxer | ⟨p, head, other⟩
    · exact muxer parked.muxer.alone
    · exact demuxer parked.demuxer.alone
    · exact other (Option.some.inj (head.symm.trans first))
  have typed : ids.toId "A" = some 2 := IdManager.toId_getElem built (i := 0) (by decide)
  obtain ⟨n, -, now⟩ := comes 0
  obtain ⟨m, goal⟩ := (posts_delivered ["A"] (by decide) ids built e fair "A" (by decide) n).resolve_left
    (fun ⟨k, disturbed⟩ => calm k disturbed)
  obtain ⟨k, later, there⟩ := comes m
  have standing : Standing ⟨0, 2⟩ (e.state k).demuxer.log := by
    have same : (e.state k).demuxer.log = _ := (congrArg (·.demuxer.log) there).trans log
    exact ⟨⟨[], _, same, rfl⟩, by rw [same]; decide⟩
  refine ⟨ids, e, built, fair, calm, n, m, ?_, k, later, standing, goal k later ⟨0, 2⟩ typed standing⟩
  rw [now]
  exact payloads

end PacketComms.Link
