import PacketComms.Lib.WeakBisimulation
import PacketComms.Muxer.Enabled
import PacketComms.Muxer.Seen

namespace PacketComms

open KeyedLists

/-- What an action shows of itself: not that the send thread goes on by itself, and not the
order in which it will visit the queues. -/
def MuxerAction.shown : MuxerAction → Option MuxerAction
  | .send => none
  | .iterate _ => some (.iterate [])
  | action => some action

namespace PacketMuxer

/-- The two muxers differ only in keys that have no packet, and in visits of such queues. -/
structure Alike (m n : PacketMuxer) : Prop where
  queues : ∀ type, m.txQueues.get type = n.txQueues.get type
  numPosted : m.numPosted = n.numPosted
  numSent : m.numSent = n.numSent
  transportError : m.transportError = n.transportError
  txLock : m.txLock = n.txLock
  send : m.send.seen m.txQueues.get = n.send.seen n.txQueues.get
  users : m.users = n.users
  destructor : m.destructor = n.destructor
  nextAddr : m.nextAddr = n.nextAddr
  wire : m.wire = n.wire
  written : m.written = n.written
  log : m.log = n.log

theorem Alike.refl (m : PacketMuxer) : Alike m m :=
  ⟨fun _ => rfl, rfl, rfl, rfl, rfl, rfl, rfl, rfl, rfl, rfl, rfl, rfl⟩

theorem Alike.symm {m n : PacketMuxer} (alike : Alike m n) : Alike n m where
  queues type := (alike.queues type).symm
  numPosted := alike.numPosted.symm
  numSent := alike.numSent.symm
  transportError := alike.transportError.symm
  txLock := alike.txLock.symm
  send := alike.send.symm
  users := alike.users.symm
  destructor := alike.destructor.symm
  nextAddr := alike.nextAddr.symm
  wire := alike.wire.symm
  written := alike.written.symm
  log := alike.log.symm

theorem Alike.trans {l m n : PacketMuxer} (first : Alike l m) (second : Alike m n) : Alike l n where
  queues type := (first.queues type).trans (second.queues type)
  numPosted := first.numPosted.trans second.numPosted
  numSent := first.numSent.trans second.numSent
  transportError := first.transportError.trans second.transportError
  txLock := first.txLock.trans second.txLock
  send := first.send.trans second.send
  users := first.users.trans second.users
  destructor := first.destructor.trans second.destructor
  nextAddr := first.nextAddr.trans second.nextAddr
  wire := first.wire.trans second.wire
  written := first.written.trans second.written
  log := first.log.trans second.log

variable {ids : IdManager} {m : PacketMuxer} {q : KeyedLists PacketType SharedPacket} {pc : SendPc}

/-- The same muxer with other keys, and with the send thread at a place that looks the same. -/
theorem alike_of (queues : q.get = m.txQueues.get) (place : pc.seen m.txQueues.get = m.send.seen m.txQueues.get) :
    Alike m { m with txQueues := q, send := pc } :=
  ⟨fun type => by rw [queues], rfl, rfl, rfl, rfl, by rw [queues, place], rfl, rfl, rfl, rfl, rfl, rfl⟩

/-- That is what it means to be alike. -/
theorem Alike.eq {n : PacketMuxer} (alike : Alike m n) : ∃ q pc, n = { m with txQueues := q, send := pc } ∧
    q.get = m.txQueues.get ∧ pc.seen m.txQueues.get = m.send.seen m.txQueues.get := by
  have queues : n.txQueues.get = m.txQueues.get := funext (fun type => (alike.queues type).symm)
  refine ⟨n.txQueues, n.send, ?_, queues, ?_⟩
  · obtain ⟨_, h1, h2, h3, h4, _, h6, h7, h8, h9, h10, h11⟩ := alike
    cases m
    cases n
    simp_all
  · rw [← queues, ← alike.send, queues]

theorem notify_queues (m : PacketMuxer) (q : KeyedLists PacketType SharedPacket) :
    ({ m with txQueues := q } : PacketMuxer).notify = { m.notify with txQueues := q } := by
  cases at_pc : m.send <;> simp only [notify, at_pc]

/-- Whoever is about to post, or to store the flag, finds no pass under way. -/
def Guarded (m : PacketMuxer) : Prop := ∀ t, t ≠ .send → 0 < m.holds t → m.send.pass = none

theorem LockInv.guarded (inv : LockInv m) : m.Guarded := by
  intro t other holding
  have free : m.send.holds = 0 := inv.exclusive holding (Ne.symm other)
  by_contra passing
  obtain ⟨types, passing⟩ := Option.ne_none_iff_exists'.mp passing
  rw [SendPc.pass_holds passing] at free
  cases free

/-- A step of `emplacePacket` depends neither on keys nor on visits of empty queues. -/
theorem Emplaced.alike {m' : PacketMuxer} {t : MuxerThread} {alloc : Bool} {post post' : PostPc}
    (step : Emplaced m t alloc post post' m') (outside : 0 < post.holds → m.send.pass = none)
    (queues : q.get = m.txQueues.get) (place : pc.seen m.txQueues.get = m.send.seen m.txQueues.get) :
    ∃ q' pc',
      Emplaced { m with txQueues := q, send := pc } t alloc post post' { m' with txQueues := q', send := pc' } ∧
      q'.get = m'.txQueues.get ∧ pc'.seen m'.txQueues.get = m'.send.seen m'.txQueues.get := by
  cases step with
  | locked lock => exact ⟨q, pc, .locked lock, queues, place⟩
  | unlocked lock => exact ⟨q, pc, .unlocked lock, queues, place⟩
  | @threw name type args failed =>
    have same : pc = m.send := SendPc.same_outside place (outside Nat.one_pos)
    refine ⟨q.touch type, pc, .threw failed, ?_, ?_⟩
    · exact funext (fun k => by simp [queues])
    · rw [same]
  | @emplaced name type args packet allocated built =>
    have same : pc = m.send := SendPc.same_outside place (outside Nat.one_pos)
    refine ⟨_, pc, .emplaced allocated built, ?_, ?_⟩
    · simp [queues]
    · rw [same]
  | signalled =>
    have same : pc = m.send := SendPc.same_outside place (outside Nat.one_pos)
    subst same
    refine ⟨q, m.signalPacketPosted.send, ?_, ?_, rfl⟩
    · have posted : ({ m with txQueues := q } : PacketMuxer).signalPacketPosted =
          { m.signalPacketPosted with txQueues := q } :=
        notify_queues { m with numPosted := m.numPosted + 1 } q
      have next : Emplaced { m with txQueues := q } t alloc .signalling .unlocking _ := .signalled
      rwa [posted] at next
    · simpa [signalPacketPosted] using queues

/-- What one muxer does, one that is alike does too, unless it was a visit of an empty queue. -/
theorem Effect.alike {m m' n : PacketMuxer} {action : MuxerAction} (effect : Effect ids m action m')
    (guarded : m.Guarded) (alike : Alike m n) (settled : n.send.Settled n.txQueues.get) :
    action = .send ∧ Alike m' n ∨
      ∃ action' n', action'.shown = action.shown ∧ Effect ids n action' n' ∧ Alike m' n' := by
  obtain ⟨q, pc, rfl, queues, place⟩ := alike.eq
  have here {p : SendPc} (at_pc : m.send = p) (outside : p.pass = none) : pc = p := by
    rw [at_pc] at place
    exact SendPc.same_outside place outside
  have settled : pc.Settled m.txQueues.get := queues ▸ settled
  cases effect with
  | threw refused => exact Or.inr ⟨_, _, rfl, .threw refused, alike_of queues place⟩
  | called idle issued => exact Or.inr ⟨_, _, rfl, .called idle issued, alike_of queues place⟩
  | @user i alloc post next step =>
    obtain ⟨q', pc', step', queues', place'⟩ := step.alike (guarded (.user i) (by simp)) queues place
    exact Or.inr ⟨_, _, rfl, .user step', alike_of queues' place'⟩
  | entered at_pc control =>
    obtain rfl := here at_pc rfl
    exact Or.inr ⟨_, _, rfl, .entered rfl control, alike_of queues rfl⟩
  | @hello post post' next at_pc step =>
    obtain rfl := here at_pc rfl
    obtain ⟨q', pc', step', queues', -⟩ := step.alike (fun _ => by rw [at_pc]; rfl) queues place
    exact Or.inr ⟨_, _, rfl, .hello rfl step', alike_of queues' rfl⟩
  | greeted at_pc =>
    obtain rfl := here at_pc rfl
    exact Or.inr ⟨_, _, rfl, .greeted rfl, alike_of queues rfl⟩
  | locked at_pc lock =>
    obtain rfl := here at_pc rfl
    exact Or.inr ⟨_, _, rfl, .locked rfl lock, alike_of queues rfl⟩
  | continues at_pc flag =>
    obtain rfl := here at_pc rfl
    exact Or.inr ⟨_, _, rfl, .continues rfl flag, alike_of queues rfl⟩
  | stops at_pc flag =>
    obtain rfl := here at_pc rfl
    exact Or.inr ⟨_, _, rfl, .stops rfl flag, alike_of queues rfl⟩
  | waits at_pc equal lock =>
    obtain rfl := here at_pc rfl
    exact Or.inr ⟨_, _, rfl, .waits rfl equal lock, alike_of queues rfl⟩
  | busy at_pc different =>
    obtain rfl := here at_pc rfl
    exact Or.inr ⟨_, _, rfl, .busy rfl different, alike_of queues rfl⟩
  | woken at_pc =>
    obtain rfl := here at_pc rfl
    exact Or.inr ⟨_, _, rfl, .woken rfl, alike_of queues rfl⟩
  | relocked at_pc lock =>
    obtain rfl := here at_pc rfl
    exact Or.inr ⟨_, _, rfl, .relocked rfl lock, alike_of queues rfl⟩
  | timedOut at_pc lock control =>
    obtain rfl := here at_pc rfl
    exact Or.inr ⟨_, _, rfl, .timedOut rfl lock control, alike_of queues rfl⟩
  | @heartBeat post post' next at_pc step =>
    obtain rfl := here at_pc rfl
    obtain ⟨q', pc', step', queues', -⟩ := step.alike (fun _ => by rw [at_pc]; rfl) queues place
    exact Or.inr ⟨_, _, rfl, .heartBeat rfl step', alike_of queues' rfl⟩
  | beaten at_pc =>
    obtain rfl := here at_pc rfl
    exact Or.inr ⟨_, _, rfl, .beaten rfl, alike_of queues rfl⟩
  | @iterates types at_pc perm =>
    obtain rfl := here at_pc rfl
    obtain ⟨types', perm', same⟩ := exists_order queues perm
    exact Or.inr ⟨.iterate types', _, rfl, .iterates rfl perm', alike_of queues (congrArg SendPc.visit same)⟩
  | passed at_pc =>
    obtain rfl : pc = .visit [] := settled.seen_done (by rw [place, at_pc]; rfl)
    exact Or.inr ⟨_, _, rfl, .passed rfl, alike_of queues rfl⟩
  | @visits type types at_pc =>
    rw [at_pc, SendPc.seen] at place
    by_cases empty : m.txQueues.get type = []
    · refine Or.inl ⟨rfl, alike_of queues ?_⟩
      rw [place, filled_cons_of_empty empty]
      simp [SendPc.seen, empty]
    · rw [filled_cons_of_filled empty] at place
      obtain ⟨all, rfl, same⟩ := settled.seen_next place
      refine Or.inr ⟨_, _, rfl, .visits rfl, alike_of queues ?_⟩
      simp [SendPc.seen, empty, same]
  | @drained type types at_pc reason =>
    rw [at_pc, SendPc.seen] at place
    split at place
    · exact Or.inl ⟨rfl, alike_of queues place⟩
    · rename_i nonempty
      obtain ⟨all, rfl, same⟩ := SendPc.seen_eq_drain place
      have flag : m.transportError = true := reason.resolve_right nonempty
      exact Or.inr ⟨_, _, rfl, .drained rfl (Or.inl flag), alike_of queues (congrArg SendPc.visit same)⟩
  | @handed type types packet packets at_pc flag front valid =>
    rw [at_pc, SendPc.seen, if_neg (by simp [front])] at place
    obtain ⟨all, rfl, same⟩ := SendPc.seen_eq_drain place
    have front' : q.get type = packet :: packets := by rw [queues, front]
    exact Or.inr ⟨_, _, rfl, .handed rfl flag front' valid, alike_of queues (by simp [SendPc.seen, same])⟩
  | @asserted type types packet packets at_pc flag front invalid =>
    rw [at_pc, SendPc.seen, if_neg (by simp [front])] at place
    obtain ⟨all, rfl, same⟩ := SendPc.seen_eq_drain place
    have front' : q.get type = packet :: packets := by rw [queues, front]
    exact Or.inr ⟨_, _, rfl, .asserted rfl flag front' invalid, alike_of queues rfl⟩
  | skipped at_pc =>
    rw [at_pc, SendPc.seen] at place
    obtain ⟨all, rfl, same⟩ := SendPc.seen_eq_write place
    exact Or.inr ⟨_, _, rfl, .skipped rfl, alike_of queues (by simp [SendPc.seen, same])⟩
  | failed at_pc more =>
    rw [at_pc, SendPc.seen] at place
    obtain ⟨all, rfl, same⟩ := SendPc.seen_eq_write place
    exact Or.inr ⟨_, _, rfl, .failed rfl more, alike_of queues (by simp [SendPc.seen, same])⟩
  | accepted at_pc more flag =>
    rw [at_pc, SendPc.seen] at place
    obtain ⟨all, rfl, same⟩ := SendPc.seen_eq_write place
    exact Or.inr ⟨_, _, rfl, .accepted rfl more flag, alike_of queues (by simp [SendPc.seen, same])⟩
  | interrupted at_pc more flag =>
    rw [at_pc, SendPc.seen] at place
    obtain ⟨all, rfl, same⟩ := SendPc.seen_eq_write place
    exact Or.inr ⟨_, _, rfl, .interrupted rfl more flag, alike_of queues (by simp [SendPc.seen, same])⟩
  | finished at_pc =>
    rw [at_pc, SendPc.seen] at place
    obtain ⟨all, rfl, same⟩ := SendPc.seen_eq_write place
    exact Or.inr ⟨_, _, rfl, .finished rfl, alike_of queues (by simp [SendPc.seen, same])⟩
  | @assigned type types ok at_pc =>
    rw [at_pc, SendPc.seen] at place
    obtain ⟨all, rfl, same⟩ := SendPc.seen_eq_assign place
    refine Or.inr ⟨_, _, rfl, .assigned rfl, ?_⟩
    simp only [queues]
    exact alike_of queues (by simp [SendPc.seen, same])
  | @popped type types packet packets at_pc front =>
    rw [at_pc, SendPc.seen] at place
    obtain ⟨all, rfl, same⟩ := SendPc.seen_eq_pop place
    have shrinks : ∀ t, m.txQueues.get t = [] → Function.update m.txQueues.get type packets t = [] := by
      intro t empty
      by_cases this : t = type
      · subst this
        simp [front] at empty
      · rwa [Function.update_of_ne this]
    have same' : filled (Function.update m.txQueues.get type packets) all =
        filled (Function.update m.txQueues.get type packets) types := by
      rw [← filled_filled shrinks, same, filled_filled shrinks]
    have front' : q.get type = packet :: packets := by rw [queues, front]
    refine Or.inr ⟨_, _, rfl, .popped rfl front', alike_of ?_ ?_⟩
    · simp [queues]
    · simp [SendPc.seen, same']
  | unlocked at_pc lock =>
    obtain rfl := here at_pc rfl
    exact Or.inr ⟨_, _, rfl, .unlocked rfl lock, alike_of queues rfl⟩
  | destroy at_pc => exact Or.inr ⟨_, _, rfl, .destroy at_pc, alike_of queues place⟩
  | destroyLocked at_pc lock => exact Or.inr ⟨_, _, rfl, .destroyLocked at_pc lock, alike_of queues place⟩
  | destroyStored at_pc =>
    have outside : m.send.pass = none := guarded .destructor (by simp) (by simp [holds, at_pc, DestructorPc.holds])
    obtain rfl := here rfl outside
    have stored : Effect ids { m with txQueues := q } .destroyed _ := .destroyStored at_pc
    refine Or.inr ⟨_, _, rfl, stored, ?_⟩
    have next := notify_queues { m with transportError := true, destructor := .unlocking } q
    dsimp only at next ⊢
    rw [next]
    exact alike_of (by simpa using queues) rfl
  | destroyUnlocked at_pc lock => exact Or.inr ⟨_, _, rfl, .destroyUnlocked at_pc lock, alike_of queues place⟩
  | destroyJoined at_pc exited =>
    obtain rfl := here exited rfl
    exact Or.inr ⟨_, _, rfl, .destroyJoined at_pc rfl, alike_of queues place⟩

/-- The send thread gets past the visits of empty queues by itself. -/
theorem settles_visit (ids : IdManager) (types : List PacketType) : ∀ n : PacketMuxer, n.send = .visit types →
    ∃ k n', (system ids).run n (List.replicate k .send) = some n' ∧ Alike n n' ∧
      n'.send.Settled n'.txQueues.get := by
  induction types with
  | nil =>
    intro n at_pc
    refine ⟨0, n, rfl, .refl n, ?_, ?_⟩ <;> simp [at_pc]
  | cons type types ih =>
    intro n at_pc
    by_cases empty : n.txQueues.get type = []
    · obtain ⟨k, n', run, alike, settled⟩ := ih { n with send := .visit types } rfl
      have visits : step ids n .send = some { n with send := .drain type types } := (Effect.visits at_pc).run_send
      have drains : step ids { n with send := .drain type types } .send = some { n with send := .visit types } :=
        (Effect.drained (m := { n with send := .drain type types }) rfl (Or.inr empty)).run_send
      refine ⟨k + 2, n', ?_, .trans (alike_of rfl ?_) alike, settled⟩
      · simp only [List.replicate_succ, TransitionSystem.run, system, visits, drains, Option.bind_some]
        exact run
      · simp [at_pc, SendPc.seen, filled_cons_of_empty empty]
    · refine ⟨0, n, rfl, .refl n, ?_, ?_⟩
      · intro first rest same
        cases at_pc.symm.trans same
        exact empty
      · simp [at_pc]

theorem settles (ids : IdManager) (n : PacketMuxer) :
    ∃ k n', (system ids).run n (List.replicate k .send) = some n' ∧ Alike n n' ∧
      n'.send.Settled n'.txQueues.get := by
  cases at_pc : n.send with
  | visit types => exact settles_visit ids types n at_pc
  | drain type types =>
    by_cases empty : n.txQueues.get type = []
    · obtain ⟨k, n', run, alike, settled⟩ := settles_visit ids types { n with send := .visit types } rfl
      have drains : step ids n .send = some { n with send := .visit types } :=
        (Effect.drained at_pc (Or.inr empty)).run_send
      refine ⟨k + 1, n', ?_, .trans (alike_of rfl ?_) alike, settled⟩
      · simp only [List.replicate_succ, TransitionSystem.run, system, drains, Option.bind_some]
        exact run
      · simp [at_pc, SendPc.seen, empty]
    · refine ⟨0, n, rfl, .refl n, ?_, ?_⟩
      · simp [at_pc]
      · intro first rest same
        cases at_pc.symm.trans same
        exact empty
  | _ => exact ⟨0, n, rfl, .refl n, by simp [at_pc], by simp [at_pc]⟩

theorem Alike.alive {m n : PacketMuxer} (alike : Alike m n) (alive : ∀ type, m.send ≠ .aborted type)
    (type : PacketType) : n.send ≠ .aborted type := by
  intro dead
  obtain ⟨q, pc, rfl, queues, place⟩ := alike.symm.eq
  rw [dead] at place
  exact alive type (SendPc.same_outside place rfl)

/-- A step is answered by the same one, once the send thread has got past the queues that are empty. -/
theorem Alike.answer {m m' n : PacketMuxer} {action : MuxerAction} (alike : Alike m n) (guarded : m.Guarded)
    (run : step ids m action = some m') : ∃ answers n', answers.filterMap MuxerAction.shown =
      [action].filterMap MuxerAction.shown ∧ (system ids).run n answers = some n' ∧ Alike m' n' := by
  obtain ⟨k, middle, sends, alike', settled⟩ := settles ids n
  have silent : (List.replicate k MuxerAction.send).filterMap MuxerAction.shown = [] := by
    simp [MuxerAction.shown]
  have both := alike.trans alike'
  rcases (step_effect run).alike guarded both settled with ⟨rfl, past⟩ | ⟨action', n', same, effect, after⟩
  · refine ⟨List.replicate k .send, middle, ?_, sends, past⟩
    rw [silent]
    rfl
  · have idle : ∀ i name args, action' = .post i name args → middle.users i = .idle := by
      rintro i name args rfl
      have post : action = .post i name args := by
        cases action <;> simp_all [MuxerAction.shown]
      rw [← both.users]
      exact idle_of_post (post ▸ run)
    have next := effect.run (both.alive (alive_of_step run)) idle
    refine ⟨List.replicate k .send ++ [action'], n', ?_, TransitionSystem.run_trans sends ?_, after⟩
    · rw [List.filterMap_append, silent, List.nil_append]
      simp only [List.filterMap_cons, same]
    · simp [TransitionSystem.run, system, next]

/-- Two reachable muxers that are alike stay so, whatever one of them does. -/
theorem alike_bisimulation (ids : IdManager) : (system ids).WeakBisimulation MuxerAction.shown
    (fun m n => (system ids).Reach m ∧ (system ids).Reach n ∧ Alike m n) where
  symm := fun ⟨left, right, alike⟩ => ⟨right, left, alike.symm⟩
  answer := by
    intro m n action m' ⟨left, right, alike⟩ run
    obtain ⟨answers, n', same, answer, after⟩ := alike.answer (reach_lockInv left).guarded run
    exact ⟨answers, n', same, answer, left.next trivial run, right.run (fun _ _ _ => trivial) answer, after⟩

end PacketMuxer

end PacketComms
