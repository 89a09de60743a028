import PacketComms.Sync.Fairness

namespace PacketComms

/-- What the next step of a call does to its side, where `post` is its place in `emplacePacket`. -/
def SyncSide.next (r : Role) (post : PostPc) (s : SyncSide) : SyncSide :=
  match s.pc, post with
  | .outside, _ => { s with pc := .subscribing, ready := false }
  | .subscribing, _ => { s with pc := .testing }
  | .testing, _ => { s with pc := r.code.tested s.ready }
  | .serialising, _ => { s with pc := .emplacing }
  | .emplacing, .idle => { s with pc := r.code.serialised }
  | .emplacing, _ => s
  | .sleeping, _ => { s with pc := .testing }
  | .leaving, _ => { s with pc := .outside, done := s.done + 1 }
  | .terminated, _ => s

namespace PacketDemuxer

variable {ids : IdManager} {d : PacketDemuxer} {i : Nat}

theorem subscribe_exists (name : String) (awake : d.receive ≠ .aborted) (empty : d.handles i = none)
    (there : d.destructor ≠ .returned) : ∃ d', step ids d (.subscribe i name) = some d' := by
  have moves : step ids d (.subscribe i name) = d.subscribe ids i name := by
    unfold step
    split <;> simp_all
  rw [moves]
  unfold subscribe
  split
  · simp_all
  · simp_all
  · split <;> simp

theorem destruct_exists {ptr : SubscriberPtr} (awake : d.receive ≠ .aborted) (handle : d.handles i = some ptr) :
    ∃ d', step ids d (.destruct i) = some d' := by
  have moves : step ids d (.destruct i) = d.destruct ids i := by
    unfold step
    split <;> simp_all
  rw [moves]
  unfold destruct
  cases ptr <;> simp [handle]

end PacketDemuxer

namespace SyncPair

section

variable {names : List String} {ids : IdManager} {archive : BoolArchive} {readyMsgStr : String}
variable {type : PacketType} {k : Nat}

/-- What a step of a call does to its side and to the muxer that it posts to. -/
theorem side_next (typed : ids.toId readyMsgStr = some type) {p p' : SyncPair} {r : Role}
    (run : p.sideStep ids archive readyMsgStr k r = some p') :
    p'.sides r = (p.sides r).next r ((p.links r).muxer.users 0) ∧
    ((p.sides r).pc = .serialising ∧
      PacketMuxer.step ids (p.links r).muxer (.post 0 readyMsgStr (.moved (archive.encode true))) =
        some (p'.links r).muxer ∨
    (p.sides r).pc = .emplacing ∧ (p.links r).muxer.users 0 ≠ .idle ∧
      PacketMuxer.step ids (p.links r).muxer (.user 0 true) = some (p'.links r).muxer ∨
    (p.sides r).pc ≠ .serialising ∧ ((p.sides r).pc = .emplacing → (p.links r).muxer.users 0 = .idle) ∧
      (p'.links r).muxer = (p.links r).muxer) := by
  cases at_pc : (p.sides r).pc <;> simp only [sideStep, at_pc] at run
  case outside =>
    simp only [Option.ite_none_right_eq_some, Option.some.injEq] at run
    obtain ⟨-, rfl⟩ := run
    simp [setSide, SyncSide.next, at_pc]
  case subscribing =>
    rw [typed] at run
    obtain ⟨middle, moved, rfl⟩ := Option.map_eq_some_iff.mp run
    obtain ⟨l, -, after⟩ := linkStep_setSide moved
    simp [after, SyncSide.next, at_pc]
  case leaving =>
    obtain ⟨middle, moved, rfl⟩ := Option.map_eq_some_iff.mp run
    obtain ⟨l, -, after⟩ := linkStep_setSide moved
    simp [after, SyncSide.next, at_pc]
  case testing | sleeping =>
    cases Option.some.inj run
    simp [setSide, SyncSide.next, at_pc]
  case serialising =>
    obtain ⟨middle, moved, rfl⟩ := Option.map_eq_some_iff.mp run
    obtain ⟨l, posts, rfl⟩ := linkStep_muxer moved
    refine ⟨by simp [setSide, SyncSide.next, at_pc], Or.inl ⟨rfl, ?_⟩⟩
    simpa [setSide] using (Link.step_muxer posts).1
  case emplacing =>
    split at run
    · rename_i idle
      cases Option.some.inj run
      simp [setSide, SyncSide.next, at_pc, idle]
    · rename_i busy
      obtain ⟨l, moved, rfl⟩ := linkStep_muxer run
      refine ⟨?_, Or.inr (Or.inl ⟨rfl, busy, by simpa using (Link.step_muxer moved).1⟩)⟩
      cases post : (p.links r).muxer.users 0 with
      | idle => exact absurd post busy
      | _ => simp [SyncSide.next, at_pc]
  case terminated => cases run

/-- A side that does not move itself: at most its flag is set. -/
structure Stands (readyMsgStr : String) (r : Role) (p p' : SyncPair) : Prop where
  pc : (p'.sides r).pc = (p.sides r).pc
  done : (p'.sides r).done = (p.sides r).done
  ready : (p.sides r).ready = true → (p'.sides r).ready = true
  users : (p'.links r).muxer.users = (p.links r).muxer.users
  posted : postedUnder readyMsgStr (p'.links r).muxer.log = postedUnder readyMsgStr (p.links r).muxer.log

/-- What the callbacks of a step do to the sides. -/
theorem linkStep_called {p p' : SyncPair} {r : Role} {action : LinkAction}
    (run : p.linkStep ids archive r action = some p') (r' : Role) : (p'.sides r').done = (p.sides r').done ∧
      ((p'.sides r').pc = (p.sides r').pc ∨ (p'.sides r').pc = .terminated) ∧
      ((p.sides r').ready = true → (p'.sides r').ready = true) := by
  obtain ⟨l, -, -, sides⟩ := linkStep_cases run
  rw [sides]
  by_cases same : r' = r.peer
  · subst same
    rw [Function.update_self]
    have called := (p.sides r.peer).callbacks_called archive (l.demuxer.handles 0)
      (l.demuxer.log.drop (p.links r).demuxer.log.length)
    exact ⟨called.done, called.pc, called.kept⟩
  · rw [Function.update_of_ne same]
    exact ⟨rfl, Or.inl rfl, id⟩

theorem reach_running (built : IdManager.ofList names = some ids) (listed : readyMsgStr ∈ names)
    (typed : ids.toId readyMsgStr = some type) {p : SyncPair}
    (reach : (system ids archive readyMsgStr k).ReachUnder Steady p) (r : Role) : (p.sides r).pc ≠ .terminated := by
  obtain ⟨t, -, related⟩ := (refines_rounds built listed typed).reach reach
  exact (related r).placed.running

/-- Only its own steps move a side. -/
theorem others_stand (built : IdManager.ofList names = some ids) (listed : readyMsgStr ∈ names)
    (typed : ids.toId readyMsgStr = some type) {p p' : SyncPair} {action : SyncAction} {r : Role}
    (reach : (system ids archive readyMsgStr k).ReachUnder Steady p) (met : Steady p action)
    (run : step ids archive readyMsgStr k p action = some p') (other : ¬ OnSide r p action) :
    Stands readyMsgStr r p p' := by
  have running := reach_running built listed typed (reach.next met run) r
  have post :=
    PacketMuxer.reach_postInv (fun _ _ met => met.2) (Link.reach_sides (reach_links (fun _ _ met => met) reach r)).1
  cases action with
  | link r' a =>
    simp only [step, Option.ite_none_right_eq_some] at run
    obtain ⟨internal, run⟩ := run
    obtain ⟨done, pc, ready⟩ := linkStep_called run r
    obtain ⟨l, moved, links, -⟩ := linkStep_cases run
    have kept : (p'.links r).muxer.users = (p.links r).muxer.users ∧
        postedUnder readyMsgStr (p'.links r).muxer.log = postedUnder readyMsgStr (p.links r).muxer.log := by
      rw [links]
      by_cases own : r = r'
      · subst own
        rw [Function.update_self]
        cases a with
        | muxer a =>
          exact (PacketMuxer.step_effect (Link.step_muxer moved).1).internal post internal (listed_user built listed)
        | demuxer a => simp [(Link.step_demuxer moved).2]
      · simp [own]
    exact ⟨pc.resolve_right running, done, ready, kept.1, kept.2⟩
  | side r' =>
    have apart : r ≠ r' := fun same => other (congrArg SyncAction.side same.symm)
    obtain rfl : r' = r.peer := (r.eq_or_peer r').resolve_left (Ne.symm apart)
    cases at_pc : (p.sides r.peer).pc <;> simp only [step, sideStep, at_pc] at run
    case outside =>
      simp only [Option.ite_none_right_eq_some, Option.some.injEq] at run
      obtain ⟨-, rfl⟩ := run
      constructor <;> simp [setSide]
    case subscribing =>
      rw [typed] at run
      obtain ⟨middle, moved, rfl⟩ := Option.map_eq_some_iff.mp run
      obtain ⟨l, moved, after⟩ := linkStep_setSide moved
      rw [Role.peer_peer] at moved after
      rw [after]
      constructor <;> simp [(Link.step_demuxer moved).2]
    case testing | sleeping =>
      cases Option.some.inj run
      constructor <;> simp [setSide]
    case serialising =>
      obtain ⟨middle, moved, rfl⟩ := Option.map_eq_some_iff.mp run
      obtain ⟨l, -, rfl⟩ := linkStep_muxer moved
      constructor <;> simp [setSide]
    case emplacing =>
      split at run
      · cases Option.some.inj run
        constructor <;> simp [setSide]
      · obtain ⟨l, -, rfl⟩ := linkStep_muxer run
        constructor <;> simp
    case leaving =>
      obtain ⟨middle, moved, rfl⟩ := Option.map_eq_some_iff.mp run
      obtain ⟨l, moved, after⟩ := linkStep_setSide moved
      rw [Role.peer_peer] at moved after
      rw [after]
      constructor <;> simp [(Link.step_demuxer moved).2]
    case terminated => cases run

/-- Both handshakes are done. -/
def Greeted (p : SyncPair) : Prop :=
  .greeted ControlMessage.hello.packet ∈ (p.links .server).demuxer.log ∧
  .greeted ControlMessage.hello.packet ∈ (p.links .client).demuxer.log

/-- A call can go on wherever nobody has the lock of the muxer that it posts to. -/
theorem side_enabled (built : IdManager.ofList names = some ids) (few : names.length ≤ 2 ^ 32 - 2)
    (listed : readyMsgStr ∈ names) (typed : ids.toId readyMsgStr = some type) {p : SyncPair}
    (reach : (system ids archive readyMsgStr k).ReachUnder Steady p) {r : Role}
    (free : (p.links r).muxer.txLock = .free) (more : (p.sides r).pc = .outside → (p.sides r).done < k ∧ p.Greeted) :
    (system ids archive readyMsgStr k).Enabled Steady (OnSide r) p := by
  have links r := (reach_links (fun _ _ met => met) reach r).mono (fun _ _ met => reliable_listed listed met)
  have muxer := (Link.reach_sides (links r)).1
  have alive := (Link.proper_muxer built few).alive built muxer
  have awake : (p.links r.peer).demuxer.receive ≠ .aborted :=
    PacketDemuxer.reach_alive (fun _ _ met => met.1) (Link.reach_demuxer built few (links r.peer))
  obtain ⟨t, -, related⟩ := (refines_rounds built listed typed).reach reach
  obtain ⟨placed, listens, -, -, -⟩ := related r
  suffices goes : ∃ p', p.sideStep ids archive readyMsgStr k r = some p' by
    obtain ⟨p', run⟩ := goes
    exact ⟨.side r, p', fun outside => (more outside).2, rfl, run⟩
  cases at_pc : (p.sides r).pc <;> simp only [sideStep, at_pc]
  case outside => simp [more at_pc]
  case subscribing =>
    obtain ⟨empty, -⟩ := listens.unsubscribed (by simp [SyncSide.Subscribed, at_pc])
    obtain ⟨d, moved⟩ : ∃ d, PacketDemuxer.step ids (p.links r.peer).demuxer _ = some d :=
      PacketDemuxer.subscribe_exists readyMsgStr awake empty (by rw [listens.alive]; decide)
    simp [typed, linkStep, Link.step, moved]
  case testing | sleeping => exact ⟨_, rfl⟩
  case serialising =>
    have idle := placed.idle (by simp [at_pc])
    simp [linkStep, Link.step, PacketMuxer.step_post alive _ _ idle]
  case emplacing =>
    have outside : (p.links r).muxer.holds (.user 0) = 0 := by
      rw [← PacketMuxer.reach_lockInv muxer, free]
      rfl
    cases post : (p.links r).muxer.users 0 with
    | idle => exact ⟨_, rfl⟩
    | locking name type args =>
      simp [linkStep, Link.step, PacketMuxer.step_user alive, PacketMuxer.emplaceStep, post, free,
        RecursiveMutex.acquire]
    | emplacing | signalling | unlocking => simp [PacketMuxer.holds, post, PostPc.holds] at outside
  case leaving =>
    obtain ⟨u, handle, -⟩ := listens.subscribed (by simp [SyncSide.Subscribed, at_pc])
    obtain ⟨d, moved⟩ : ∃ d, PacketDemuxer.step ids (p.links r.peer).demuxer _ = some d :=
      PacketDemuxer.destruct_exists awake handle
    simp [linkStep, Link.step, moved]
  case terminated => exact absurd at_pc placed.running

end

end SyncPair

end PacketComms
