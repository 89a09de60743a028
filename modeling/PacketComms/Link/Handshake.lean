import PacketComms.Link.Control
import PacketComms.Link.Liveness

namespace PacketComms

namespace PacketDemuxer

/-- Where the first wait was successful, the handshake is going on, has taken a packet, or an error has ended it. -/
def Shakes (d : PacketDemuxer) : Prop :=
  d.waits.head? = some true →
    d.receive.Greeting ∨ (∃ p, .greeted p ∈ d.log) ∨ d.transportError = true ∨ d.receive = .aborted

/-- A step that leaves the receive thread where it is. -/
theorem Shakes.quiet {d d' : PacketDemuxer} (inv : Shakes d) (waits : d'.waits = d.waits)
    (receive : d'.receive = d.receive)
    (log : d.log <+: d'.log) (flag : d.transportError = true → d'.transportError = true) : Shakes d' := by
  intro first
  rw [receive]
  exact (inv (waits ▸ first)).imp id (Or.imp (fun ⟨p, greeted⟩ => ⟨p, log.subset greeted⟩) (Or.imp flag id))

/-- A step of the receive thread that is not at the end of the handshake. -/
theorem Shakes.goesOn {d d' : PacketDemuxer} (inv : Shakes d) (waits : d'.waits = d.waits)
    (alive : d.receive ≠ .aborted) (log : d.log <+: d'.log) (flag : d.transportError = true → d'.transportError = true)
    (greeting : d.receive.Greeting → d'.receive.Greeting ∨ (∃ p, .greeted p ∈ d'.log) ∨ d'.transportError = true ∨
      d'.receive = .aborted) : Shakes d' := by
  intro first
  rcases inv (waits ▸ first) with now | ⟨p, greeted⟩ | set | dead
  · exact greeting now
  · exact Or.inr (Or.inl ⟨p, log.subset greeted⟩)
  · exact Or.inr (Or.inr (Or.inl (flag set)))
  · exact absurd dead alive

/-- A later wait. -/
theorem Shakes.waitsAgain {d d' : PacketDemuxer} (inv : Shakes d) (greet : GreetInv d)
    (at_pc : d.receive = .ready .receiveLoop)
    {answer : Bool} (waits : d'.waits = d.waits ++ [answer]) (log : d'.log = d.log)
    (flag : d'.transportError = d.transportError) : Shakes d' := by
  intro first
  have asked : d.waits ≠ [] := by
    intro none
    have hello := greet.asked none
    rw [at_pc] at hello
    cases hello
  rw [waits, List.head?_append_of_ne_nil _ asked] at first
  have before := inv first
  rw [at_pc] at before
  rw [log, flag]
  rcases before with now | greeted | set | dead
  · cases now
  · exact Or.inr (Or.inl greeted)
  · exact Or.inr (Or.inr (Or.inl set))
  · cases dead

theorem Effect.shakes {ids : IdManager} {d d' : PacketDemuxer} {action : DemuxerAction} (greet : GreetInv d)
    (inv : Shakes d) (effect : Effect ids d action d') : Shakes d' := by
  have log := effect.log_grows
  cases effect with
  | unknown => exact inv
  | arrived | subscribed | constructed | moveConstructed | moveAssigned | destructedNull | warned | joined =>
    exact inv.quiet rfl rfl log id
  | destroys => exact inv.quiet rfl rfl log (fun _ => rfl)
  | destructed _ same =>
    subst same
    split at log
    · exact inv.quiet (by simp [*]) (by simp [*]) (by simp [*]) (by simp [*])
    · exact inv.quiet (by simp [*]) (by simp [*]) (by simp [*]) (by simp [*])
  | @readied caller at_pc =>
    cases caller with
    | receiveHelloMessage => exact fun _ => Or.inl rfl
    | receiveLoop => exact inv.waitsAgain greet at_pc rfl rfl rfl
  | @timedOut caller at_pc =>
    cases caller with
    | receiveHelloMessage =>
      intro first
      rw [greet.fresh at_pc] at first
      cases first
    | receiveLoop => exact inv.waitsAgain greet at_pc rfl rfl rfl
  | reads at_pc | leaves at_pc | got at_pc | typed at_pc | sized at_pc =>
    refine inv.goesOn rfl (by simp [at_pc]) log id (fun now => Or.inl ?_)
    rw [at_pc] at now
    exact now
  | failed at_pc => exact inv.goesOn rfl (by simp [at_pc]) log (fun _ => rfl) (fun _ => Or.inr (Or.inr (Or.inl rfl)))
  | refused at_pc flag => exact inv.goesOn rfl (by simp [at_pc]) log id (fun _ => Or.inr (Or.inr (Or.inl flag)))
  | threw at_pc | asserted at_pc | crashed at_pc =>
    exact inv.goesOn rfl (by simp [at_pc]) log id (fun _ => Or.inr (Or.inr (Or.inr rfl)))
  | @received caller type buffer size at_pc =>
    refine inv.goesOn rfl (by simp [at_pc]) log id (fun now => Or.inl ?_)
    rw [at_pc] at now
    cases now
    trivial
  | @greeted packet at_pc =>
    exact inv.goesOn rfl (by simp [at_pc]) log id (fun _ => Or.inr (Or.inl ⟨packet, by simp⟩))
  | @rejected packet at_pc =>
    exact inv.goesOn rfl (by simp [at_pc]) log (fun _ => rfl) (fun _ => Or.inr (Or.inl ⟨packet, by simp⟩))
  | continues at_pc | exits at_pc | handled at_pc | dispatched at_pc =>
    refine inv.goesOn rfl (by simp [at_pc]) log id (fun now => ?_)
    rw [at_pc] at now
    cases now

theorem reach_shakes {ids : IdManager} {C : PacketDemuxer → DemuxerAction → Prop} {d : PacketDemuxer}
    (reach : (system ids).ReachUnder C d) : Shakes d := by
  refine reach.invariant (fun first => by cases first) ?_
  exact fun before inv _ run => (step_effect run).shakes (reach_greetInv before) inv

/-- Who has dealt with a packet has greeted, or its first wait has timed out, or an error has ended the handshake. -/
theorem shaken {ids : IdManager} {C : PacketDemuxer → DemuxerAction → Prop} {d : PacketDemuxer}
    (reach : (system ids).ReachUnder C d) (some : dealtWith d.log ≠ []) : d.waits.head? = .some false ∨
      (∃ p, .greeted p ∈ d.log) ∨ d.transportError = true ∨ d.receive = .aborted := by
  have greeting : ¬ d.receive.Greeting := fun now => some ((reach_handledInv reach).greeting now)
  cases first : d.waits.head? with
  | none =>
    have asked := (reach_greetInv reach).asked (List.head?_eq_none_iff.mp first)
    exact absurd (by rw [asked]; rfl) greeting
  | some answer =>
    cases answer with
    | false => exact Or.inl rfl
    | true => exact Or.inr ((reach_shakes reach first).resolve_left greeting)

end PacketDemuxer

namespace Link

/-- The handshake takes place. Over a reliable stream and under a fair scheduler the receiving side comes to take the
Hello message, unless its first wait times out, one side is destroyed or a packet was sent ahead of the Hello message.
-/
theorem handshake_done (names : List String) (few : names.length ≤ 2 ^ 32 - 2) (ids : IdManager)
    (built : IdManager.ofList names = some ids) (e : (system ids).Execution (Reliable (ShortPost names)))
    (fair : FairSides e) : ∃ n, (e.state n).Disturbed ∨ (e.state n).demuxer.waits.head? = some false ∨
      .greeted ControlMessage.hello.packet ∈ (e.state n).demuxer.log := by
  by_cases disturbed : ∃ n, (e.state n).Disturbed
  · obtain ⟨n, now⟩ := disturbed
    exact ⟨n, Or.inl now⟩
  simp only [not_exists] at disturbed
  -- The Hello message is posted, written, and dealt with.
  obtain ⟨n, waiting⟩ : ∃ n, (e.state n).muxer.send = .waiting false := by
    have unset : ((muxerSide e).state 0).transportError = false := by
      rw [(muxerSide e).start]
      rfl
    obtain ⟨n, -, rest | set⟩ := PacketMuxer.comes_to_rest (proper_muxer built few) built fair.muxer 0 unset
    · exact ⟨n, rest.1⟩
    · have calm := PacketMuxer.reach_calmInv (fun _ _ met => met.1) (reach_sides (e.reach n)).1
      exact absurd (Or.inl (calm.flag set)) (disturbed n)
  have posted : postsOf IdManager.controlPacket (e.state n).muxer.log ≠ [] := by
    have user : ∀ name args, ShortPost names name args → ids.toId name ≠ some IdManager.controlPacket :=
      fun name args may issued => (IdManager.toId_listed built few may.1 issued).2 rfl
    have control := PacketMuxer.reach_controlInv built user (fun _ _ met => met.2) (reach_sides (e.reach n)).1
    obtain ⟨beats, same⟩ := control.after (by rw [waiting]; trivial)
    intro none
    rw [controlPosts, none] at same
    cases same
  obtain ⟨m, -, written⟩ := all_written built few fair IdManager.controlPacket n
  have out := written.resolve_left (disturbed m)
  obtain ⟨k, -, dealt⟩ := all_dealt built few fair m
  have taken := dealt.resolve_left (disturbed k)
  have some : dealtWith (e.state k).demuxer.log ≠ [] := by
    intro none
    rw [none, List.prefix_nil, List.map_eq_nil_iff] at taken
    rw [taken, List.filter_nil, List.prefix_nil] at out
    exact posted out
  have demuxer := (reach_sides (e.reach k)).2
  refine ⟨k, Or.inr ?_⟩
  rcases PacketDemuxer.shaken demuxer some with late | ⟨p, greeted⟩ | set | dead
  · exact Or.inl late
  · obtain ⟨after, split, -⟩ := (PacketDemuxer.reach_greetedFirst demuxer).split greeted
    obtain ⟨rest, sent⟩ :=
      (PacketDemuxer.reach_handledInv demuxer).sub.trans (received_sub (fun _ _ may => may.2) (e.reach k))
    have hello : p = ControlMessage.hello.packet := by
      by_contra other
      refine disturbed k (Or.inr (Or.inr ⟨p, ?_, other⟩))
      rw [← sent, split]
      rfl
    exact Or.inr (hello ▸ greeted)
  · exact absurd (Or.inr (demuxer_alarm built few (e.reach k) set)) (disturbed k)
  · exact absurd dead (PacketDemuxer.reach_alive (fun _ _ met => met.1) (reach_demuxer built few (e.reach k)))

/-- Nothing is posted: the Hello message is sent and taken, and both sides wait. -/
def greets : List LinkAction :=
  PacketMuxer.sendsHello.map .muxer ++
    (PacketDemuxer.frameActions ControlMessage.hello.packet ++ [DemuxerAction.receive]).map .demuxer

theorem handshake_done_alone : ∃ (ids : IdManager) (e : (system ids).Execution (Reliable (ShortPost ["A"]))),
    IdManager.ofList ["A"] = some ids ∧ (∃ n, .greeted ControlMessage.hello.packet ∈ (e.state n).demuxer.log) ∧
    ∃ n, (e.state n).Disturbed ∨ (e.state n).demuxer.waits.head? = some false ∨
      .greeted ControlMessage.hello.packet ∈ (e.state n).demuxer.log := by
  obtain ⟨ids, built, l, run, parked, log⟩ :
      ∃ ids, IdManager.ofList ["A"] = some ids ∧ ∃ l, (system ids).run {} greets = some l ∧
      l.Parked ∧ l.demuxer.log = [.greeted ControlMessage.hello.packet] := by
    refine ⟨_, rfl, _, rfl, ⟨⟨rfl, rfl, rfl, rfl, fun type => ?_, fun _ => rfl, rfl⟩, ⟨rfl, rfl, rfl, rfl⟩⟩, rfl⟩
    exact KeyedLists.get_eq_nil_of_total (by rfl) type
  have quiet : greets.all silent = true := by decide
  obtain ⟨e, fair, comes⟩ := exists_endless (by decide)
    (.of_forall (fun action member l => reliable_of_silent l (List.all_eq_true.mp quiet action member)) _) run parked
    (loops_reliable (ShortPost ["A"]))
  obtain ⟨n, -, now⟩ := comes 0
  refine ⟨ids, e, built, ⟨n, ?_⟩, handshake_done ["A"] (by decide) ids built e fair⟩
  rw [now]
  exact log ▸ List.mem_cons_self

end Link

end PacketComms
