import PacketComms.Muxer.Alike
import PacketComms.Muxer.EmplacePacket
import PacketComms.Muxer.Handing

namespace PacketComms

/-- The thread whose step of `emplacePacket` it is. -/
def MuxerAction.user? : MuxerAction → Option Nat
  | .post i _ _ | .user i _ => some i
  | _ => none

namespace PacketMuxer

/-- The thread `i` has called `emplacePacket` in `m`, which has put nothing into a queue and has
not returned; `others` is what the other threads have done since. -/
inductive FailingPost (ids : IdManager) (i : Nat) (name : String) (args : PacketArgs) (m : PacketMuxer) :
    List MuxerAction → PacketMuxer → Prop
  | called {m'} : ids.toId name ≠ none → step ids m (.post i name args) = some m' →
      FailingPost ids i name args m [] m'
  | own {others m' alloc m''} : FailingPost ids i name args m others m' → step ids m' (.user i alloc) = some m'' →
      m''.users i ≠ .signalling → m''.users i ≠ .idle → FailingPost ids i name args m others m''
  | other {others m' action m''} : FailingPost ids i name args m others m' → action.user? ≠ some i →
      step ids m' action = some m'' → FailingPost ids i name args m (others ++ [action]) m''

/-- A call of `emplacePacket` that has thrown: `name` has no id, or the packet could not be made. -/
inductive FailedPost (ids : IdManager) (i : Nat) (name : String) (args : PacketArgs) (m : PacketMuxer) :
    List MuxerAction → PacketMuxer → Prop
  | unknown {m'} : ids.toId name = none → step ids m (.post i name args) = some m' →
      FailedPost ids i name args m [] m'
  | threw {others m' alloc m''} : FailingPost ids i name args m others m' → m'.users i = .unlocking →
      step ids m' (.user i alloc) = some m'' → FailedPost ids i name args m others m''

/-- The muxer as it is without the call that the thread `i` is in. -/
def aside (m : PacketMuxer) (i : Nat) : PacketMuxer :=
  { m with users := Function.update m.users i .idle, txLock := m.txLock.without (.user i) }

variable {ids : IdManager} {m m' : PacketMuxer} {i : Nat}

theorem aside_of_idle (idle : m.users i = .idle) (free : m.txLock.heldBy (.user i) = 0) : m.aside i = m := by
  unfold aside
  rw [RecursiveMutex.without_of_heldBy free, ← idle, Function.update_eq_self]

theorem aside_users_of_ne {j : Nat} (other : j ≠ i) : (m.aside i).users j = m.users j :=
  Function.update_of_ne other _ _

/-- Where the thread `j` is, an assignment to it does not touch what is left aside. -/
theorem aside_users {j : Nat} (other : j ≠ i) (pc : PostPc) :
    ({ m with users := Function.update m.users j pc } : PacketMuxer).aside i =
      { m.aside i with users := Function.update (m.aside i).users j pc } := by
  simp only [aside, Function.update_comm other]

theorem notify_aside (m : PacketMuxer) (i : Nat) : (m.aside i).notify = m.notify.aside i := by
  cases at_pc : m.send <;> simp only [aside, notify, at_pc]

theorem Guarded.aside (guarded : m.Guarded) (i : Nat) : (m.aside i).Guarded := by
  intro t other holding
  refine guarded t other (holding.trans_le ?_)
  cases t with
  | user j =>
    by_cases same : j = i
    · subst same
      simp [holds, PacketMuxer.aside, PostPc.holds]
    · simp [holds, PacketMuxer.aside, Function.update_of_ne same]
  | _ => exact Nat.le_refl _

/-- What another thread does does not depend on the call. -/
theorem Emplaced.aside {t : MuxerThread} {alloc : Bool} {pc pc' : PostPc} (step : Emplaced m t alloc pc pc' m')
    (other : t ≠ .user i) : Emplaced (m.aside i) t alloc pc pc' (m'.aside i) := by
  cases step with
  | locked lock => exact .locked (RecursiveMutex.acquire_without lock other)
  | threw failed => exact .threw failed
  | emplaced allocated built => exact .emplaced allocated built
  | signalled =>
    have posted : (m.aside i).signalPacketPosted = m.signalPacketPosted.aside i :=
      notify_aside { m with numPosted := m.numPosted + 1 } i
    rw [← posted]
    exact .signalled
  | unlocked lock => exact .unlocked (RecursiveMutex.release_without lock other)

theorem Effect.aside {action : MuxerAction} (effect : Effect ids m action m') (other : action.user? ≠ some i) :
    Effect ids (m.aside i) action (m'.aside i) := by
  cases effect with
  | threw refused => exact .threw refused
  | @called j name type args idle issued =>
    have apart : j ≠ i := fun same => other (congrArg some same)
    rw [aside_users apart]
    exact .called ((aside_users_of_ne apart).trans idle) issued
  | @user j alloc pc next step =>
    have apart : j ≠ i := fun same => other (congrArg some same)
    have step' := step.aside (i := i) (fun same => apart (by cases same; rfl))
    rw [aside_users apart]
    refine .user ?_
    rw [aside_users_of_ne apart]
    exact step'
  | entered at_pc control => exact .entered at_pc control
  | hello at_pc step => exact .hello (m := m.aside i) at_pc (step.aside nofun)
  | greeted at_pc => exact .greeted at_pc
  | locked at_pc lock => exact .locked at_pc (RecursiveMutex.acquire_without lock nofun)
  | continues at_pc flag => exact .continues at_pc flag
  | stops at_pc flag => exact .stops at_pc flag
  | waits at_pc equal lock => exact .waits at_pc equal (RecursiveMutex.release_without lock nofun)
  | busy at_pc different => exact .busy at_pc different
  | woken at_pc => exact .woken at_pc
  | relocked at_pc lock => exact .relocked at_pc (RecursiveMutex.acquire_without lock nofun)
  | timedOut at_pc lock control => exact .timedOut at_pc (RecursiveMutex.acquire_without lock nofun) control
  | heartBeat at_pc step => exact .heartBeat (m := m.aside i) at_pc (step.aside nofun)
  | beaten at_pc => exact .beaten at_pc
  | iterates at_pc perm => exact .iterates at_pc perm
  | passed at_pc => exact .passed at_pc
  | visits at_pc => exact .visits at_pc
  | drained at_pc reason => exact .drained at_pc reason
  | handed at_pc flag front valid => exact .handed at_pc flag front valid
  | asserted at_pc flag front invalid => exact .asserted at_pc flag front invalid
  | skipped at_pc => exact .skipped at_pc
  | failed at_pc more => exact .failed at_pc more
  | accepted at_pc more flag => exact .accepted at_pc more flag
  | interrupted at_pc more flag => exact .interrupted at_pc more flag
  | finished at_pc => exact .finished at_pc
  | assigned at_pc => exact .assigned at_pc
  | popped at_pc front => exact .popped at_pc front
  | unlocked at_pc lock => exact .unlocked at_pc (RecursiveMutex.release_without lock nofun)
  | destroy at_pc => exact .destroy at_pc
  | destroyLocked at_pc lock => exact .destroyLocked at_pc (RecursiveMutex.acquire_without lock nofun)
  | destroyStored at_pc =>
    rw [← notify_aside]
    exact .destroyStored at_pc
  | destroyUnlocked at_pc lock => exact .destroyUnlocked at_pc (RecursiveMutex.release_without lock nofun)
  | destroyJoined at_pc exited => exact .destroyJoined at_pc exited

/-- The place of the thread is moved by itself alone. -/
theorem Effect.users_other {action : MuxerAction} (effect : Effect ids m action m') (other : action.user? ≠ some i) :
    m'.users i = m.users i := by
  cases effect with
  | @called j name type args idle issued =>
    exact Function.update_of_ne (fun same => other (congrArg some same.symm)) _ _
  | @user j alloc pc next step =>
    have users : next.users = m.users := step.lock.2.1
    dsimp only
    rw [Function.update_of_ne (fun same => other (congrArg some same.symm)), users]
  | hello at_pc step | heartBeat at_pc step => exact congrFun step.lock.2.1 i
  | destroyStored => simp
  | _ => rfl

/-- The steps of a call that puts nothing into a queue are not seen from aside. -/
theorem Emplaced.aside_own {alloc : Bool} {pc pc' : PostPc} (step : Emplaced m (.user i) alloc pc pc' m')
    (before : pc ≠ .signalling) (after : pc' ≠ .signalling) :
    Alike (m.aside i) (({ m' with users := Function.update m'.users i pc' } : PacketMuxer).aside i) := by
  have own (l : RecursiveMutex MuxerThread) (q : KeyedLists PacketType SharedPacket)
      (lock : l.without (.user i) = m.txLock.without (.user i)) :
      ({ m with txLock := l, txQueues := q, users := Function.update m.users i pc' } : PacketMuxer).aside i =
        { m.aside i with txQueues := q } := by
    simp only [PacketMuxer.aside, Function.update_idem, lock]
  cases step with
  | @locked name type args l lock =>
    exact own l m.txQueues (RecursiveMutex.acquire_without_self lock) ▸ .refl _
  | @threw name type args failed =>
    rw [own m.txLock (m.txQueues.touch type) rfl]
    exact alike_of (funext (fun k => by simp [PacketMuxer.aside])) rfl
  | emplaced => exact absurd rfl after
  | signalled => exact absurd rfl before
  | @unlocked l lock =>
    exact own l m.txQueues (RecursiveMutex.release_without_self lock) ▸ .refl _

theorem alike_own {alloc : Bool} (run : step ids m (.user i alloc) = some m') (before : m.users i ≠ .signalling)
    (after : m'.users i ≠ .signalling) : Alike (m.aside i) (m'.aside i) := by
  cases step_effect run with
  | user step =>
    refine step.aside_own before ?_
    simpa using after

/-- A thread that is in no call has nothing to be left aside. -/
theorem LockInv.aside_of_idle (inv : LockInv m) (idle : m.users i = .idle) : m.aside i = m := by
  have free : m.txLock.heldBy (.user i) = 0 := by
    rw [inv (.user i), holds, idle, PostPc.holds]
  exact PacketMuxer.aside_of_idle idle free

theorem FailingPost.reach {others : List MuxerAction} {name : String} {args : PacketArgs} (reach : (system ids).Reach m)
    (failing : FailingPost ids i name args m others m') : (system ids).Reach m' := by
  induction failing with
  | called _ run => exact reach.next trivial run
  | own _ run _ _ ih => exact ih.next trivial run
  | other _ _ run ih => exact ih.next trivial run

/-- While the call is under way, the others do what they would have done without it. -/
theorem FailingPost.alike {others : List MuxerAction} {name : String} {args : PacketArgs} (reach : (system ids).Reach m)
    (failing : FailingPost ids i name args m others m') : m'.users i ≠ .signalling ∧
      ∃ answers n, (others = [] → answers = []) ∧
        answers.filterMap MuxerAction.shown = others.filterMap MuxerAction.shown ∧
        (system ids).run m answers = some n ∧ Alike (m'.aside i) n := by
  induction failing with
  | called known run =>
    cases step_effect run with
    | threw refused => exact absurd refused known
    | called idle issued =>
      refine ⟨by simp, [], m, fun _ => rfl, rfl, rfl, ?_⟩
      have same := (reach_lockInv reach).aside_of_idle idle
      simp only [aside, Function.update_idem] at same ⊢
      rw [same]
      exact .refl m
  | own _ run after _ ih =>
    obtain ⟨before, answers, n, alone, same, answer, alike⟩ := ih
    exact ⟨after, answers, n, alone, same, answer, (alike_own run before after).symm.trans alike⟩
  | @other others middle action _ failing apart run ih =>
    obtain ⟨before, answers, n, -, same, answer, alike⟩ := ih
    have effect := step_effect run
    have guarded := (reach_lockInv (failing.reach reach)).guarded
    have idle : ∀ j name args, action = .post j name args → (middle.aside i).users j = .idle := by
      rintro j name args rfl
      exact (aside_users_of_ne (fun same => apart (congrArg some same))).trans (idle_of_post run)
    have alive : ∀ type, middle.send ≠ .aborted type := alive_of_step run
    have alone : step ids (middle.aside i) action = some _ := (effect.aside apart).run alive idle
    obtain ⟨more, n', same', answer', alike'⟩ := alike.answer (guarded.aside i) alone
    refine ⟨?_, answers ++ more, n', by simp, ?_, TransitionSystem.run_trans answer answer', alike'⟩
    · rw [effect.users_other apart]
      exact before
    · rw [List.filterMap_append, List.filterMap_append, same, same']

theorem FailedPost.reach {others : List MuxerAction} {name : String} {args : PacketArgs} (reach : (system ids).Reach m)
    (failed : FailedPost ids i name args m others m') : (system ids).Reach m' := by
  cases failed with
  | unknown _ run => exact reach.next trivial run
  | threw failing _ run => exact (failing.reach reach).next trivial run

/-- When the call has thrown, the muxer is one that the others alone would have left. -/
theorem FailedPost.alike {others : List MuxerAction} {name : String} {args : PacketArgs} (reach : (system ids).Reach m)
    (failed : FailedPost ids i name args m others m') : m'.users i = .idle ∧
      ∃ answers n, (others = [] → answers = []) ∧
        answers.filterMap MuxerAction.shown = others.filterMap MuxerAction.shown ∧
        (system ids).run m answers = some n ∧ Alike m' n := by
  have reach' := failed.reach reach
  cases failed with
  | unknown refused run =>
    cases step_effect run with
    | threw => exact ⟨idle_of_post run, [], m, fun _ => rfl, rfl, rfl, .refl m⟩
    | called _ issued => cases refused.symm.trans issued
  | @threw _ before _ _ failing at_pc run =>
    obtain ⟨quiet, answers, n, alone, same, answer, alike⟩ := failing.alike reach
    have idle : m'.users i = .idle := by
      cases step_effect run with
      | user step =>
        rw [at_pc] at step
        cases step
        simp
    have own := alike_own run quiet (by simp [idle])
    rw [(reach_lockInv reach').aside_of_idle idle] at own
    exact ⟨idle, answers, n, alone, same, answer, own.symm.trans alike⟩

/-- A call of `emplacePacket` that throws, step by step. -/
theorem emplacePacket_failedPost {name : String} {args : PacketArgs} {alloc : Bool} {call : PostedCall}
    (alive : ∀ type, m.send ≠ .aborted type) (idle : m.users i = .idle)
    (run : emplacePacket ids m (.user i) name args alloc = some call) (thrown : call.thrown = true) :
    FailedPost ids i name args m [] call.muxer := by
  have called : step ids m (.post i name args) = some _ := step_post alive name args idle
  obtain ⟨-, ⟨unknown, same⟩ | ⟨type, guard, known, lock, failed, same⟩⟩ := emplacePacket_thrown run thrown
  · rw [unknown, Option.elim_none] at called
    rw [same]
    exact .unknown unknown called
  · rw [known, Option.elim_some] at called
    have locks : Emplaced m (.user i) alloc (.locking name type args) (.emplacing name type args)
        { m with txLock := guard } := .locked lock
    have throws : Emplaced { m with txLock := guard } (.user i) alloc (.emplacing name type args) .unlocking
        { m with txLock := guard, txQueues := m.txQueues.touch type } := .threw failed
    have unlocks : Emplaced { m with txLock := guard, txQueues := m.txQueues.touch type } (.user i) alloc .unlocking
        .idle { m with txQueues := m.txQueues.touch type } := .unlocked (RecursiveMutex.release_acquire lock)
    have begun : FailingPost ids i name args m [] _ := .called (by simp [known]) called
    have locked := begun.own (step_own alive locks m.users) (by simp) (by simp)
    have threw := locked.own (step_own (m := { m with txLock := guard }) alive throws m.users) (by simp) (by simp)
    have unlocked : step ids _ (.user i alloc) = some _ :=
      step_own (m := { m with txLock := guard, txQueues := m.txQueues.touch type }) alive unlocks m.users
    rw [← idle, Function.update_eq_self] at unlocked
    rw [same]
    exact .threw threw (by simp) unlocked

/-- Whatever can happen to one of the muxers from now on can happen to the other one, and leaves
them alike. -/
def SameFuture (ids : IdManager) (m n : PacketMuxer) : Prop :=
  (∀ later m', (system ids).run m later = some m' → ∃ answers n',
    answers.filterMap MuxerAction.shown = later.filterMap MuxerAction.shown ∧
      (system ids).run n answers = some n' ∧ Alike m' n') ∧
  ∀ later n', (system ids).run n later = some n' → ∃ answers m',
    answers.filterMap MuxerAction.shown = later.filterMap MuxerAction.shown ∧
      (system ids).run m answers = some m' ∧ Alike m' n'

theorem Alike.sameFuture {n : PacketMuxer} (alike : Alike m n) (left : (system ids).Reach m)
    (right : (system ids).Reach n) : SameFuture ids m n := by
  refine ⟨fun later m' run => ?_, fun later n' run => ?_⟩
  · obtain ⟨answers, n', same, answer, -, -, after⟩ := (alike_bisimulation ids).run ⟨left, right, alike⟩ run
    exact ⟨answers, n', same, answer, after⟩
  · obtain ⟨answers, m', same, answer, -, -, after⟩ := (alike_bisimulation ids).run ⟨right, left, alike.symm⟩ run
    exact ⟨answers, m', same, answer, after.symm⟩

/-- Where the same packets of a type have been posted, the same ones are handed over in the same
order, however far the send thread has come. -/
theorem hands_comparable {n : PacketMuxer} (left : (system ids).Reach m) (right : (system ids).Reach n)
    {type : PacketType} (same : postsOf type m.log = postsOf type n.log) :
    handsOf type m.log <+: handsOf type n.log ∨ handsOf type n.log <+: handsOf type m.log := by
  obtain ⟨f, -, refines⟩ := (refines_fifo ids _).reach left
  obtain ⟨g, -, refines'⟩ := (refines_fifo ids _).reach right
  have first := (reach_handInv left).hands_sub refines type
  have second := (reach_handInv right).hands_sub refines' type
  rw [same] at first
  exact List.prefix_or_prefix_of_prefix first second

/-- A call of `emplacePacket` that throws gives the lock back, wakes nobody and leaves the arguments, the queues, the
counters and the flag as they were. If other threads were at work meanwhile, that is how they alone leave them, and for
the passes to come it is as if the call had not been made. Only the order between the types is not compared: a key that
the call has made may change it, and over a failing transport a pass may then get less far with some type. -/
theorem failed_post (ids : IdManager) (m : PacketMuxer) (reach : (system ids).Reach m) :
    (∀ t name args alloc call, emplacePacket ids m t name args alloc = some call → call.thrown = true →
      call.args = args ∧ call.muxer.send = m.send ∧ Alike call.muxer m) ∧
    ∀ i name args others m', FailedPost ids i name args m others m' →
      m'.txLock.heldBy (.user i) = 0 ∧ ∃ answers n, (others = [] → n = m) ∧
        answers.filterMap MuxerAction.shown = others.filterMap MuxerAction.shown ∧
        (system ids).run m answers = some n ∧ Alike m' n ∧ SameFuture ids m' n ∧
        ∀ later later' m'' n'' type, (system ids).run m' later = some m'' → (system ids).run n later' = some n'' →
          postsOf type m''.log = postsOf type n''.log →
          handsOf type m''.log <+: handsOf type n''.log ∨ handsOf type n''.log <+: handsOf type m''.log := by
  refine ⟨?_, ?_⟩
  · intro t name args alloc call run thrown
    obtain ⟨kept, ⟨-, same⟩ | ⟨type, guard, -, -, -, same⟩⟩ := emplacePacket_thrown run thrown
    · exact ⟨kept, by rw [same], by rw [same]; exact .refl m⟩
    · refine ⟨kept, by rw [same], ?_⟩
      rw [same]
      exact (alike_of (funext (fun k => by simp)) rfl).symm
  · intro i name args others m' failed
    obtain ⟨idle, answers, n, alone, same, run, alike⟩ := failed.alike reach
    have left := failed.reach reach
    have right : (system ids).Reach n := reach.run (fun _ _ _ => trivial) run
    refine ⟨?_, answers, n, ?_, same, run, alike, alike.sameFuture left right, ?_⟩
    · rw [reach_lockInv left (.user i), holds, idle, PostPc.holds]
    · intro none
      rw [alone none] at run
      exact (Option.some.inj run).symm
    · intro later later' m'' n'' type run' run'' posts
      exact hands_comparable (left.run (fun _ _ _ => trivial) run') (right.run (fun _ _ _ => trivial) run'') posts

/-- A call with a size that the vector rejects, which is the first to mention its type. -/
theorem failed_post_rejected : ∃ ids m', IdManager.ofList ["A"] = some ids ∧
    FailedPost ids 0 "A" (.sized (-1)) {} [] m' ∧ m'.txQueues.keys = [2] ∧
    m'.txLock.heldBy (.user 0) = 0 ∧ ∃ answers n, (([] : List MuxerAction) = [] → n = {}) ∧
      answers.filterMap MuxerAction.shown = [].filterMap MuxerAction.shown ∧
      (system ids).run {} answers = some n ∧ Alike m' n ∧ SameFuture ids m' n ∧
      ∀ later later' m'' n'' type, (system ids).run m' later = some m'' → (system ids).run n later' = some n'' →
        postsOf type m''.log = postsOf type n''.log →
        handsOf type m''.log <+: handsOf type n''.log ∨ handsOf type n''.log <+: handsOf type m''.log := by
  obtain ⟨ids, built⟩ : ∃ ids, IdManager.ofList ["A"] = some ids := IdManager.ofList_exists (by decide)
  have known : ids.toId "A" = some 2 := IdManager.toId_getElem built (i := 0) (by decide)
  have run : emplacePacket ids {} (.user 0) "A" (.sized (-1)) true =
      some ⟨{ txQueues := KeyedLists.empty.touch 2 }, .sized (-1), true⟩ := by
    simp [emplacePacket, known, RecursiveMutex.acquire, RecursiveMutex.release, ComPacket.make]
  have failed := emplacePacket_failedPost (by simp) rfl run rfl
  exact ⟨ids, _, built, failed, rfl, (failed_post ids {} .start).2 0 "A" (.sized (-1)) [] _ failed⟩

end PacketMuxer

end PacketComms
