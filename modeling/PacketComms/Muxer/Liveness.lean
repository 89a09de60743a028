import PacketComms.Lib.History
import PacketComms.Muxer.HelloFirst
import PacketComms.Muxer.Idling

namespace PacketComms.PacketMuxer

/-- A program that posts nothing that cannot be sent, threads that are never held up, and a transport that can answer
a write by more than 0: it takes bytes or it fails. -/
structure Proper (ids : IdManager) (allowed : String → PacketArgs → Prop) (C : PacketMuxer → MuxerAction → Prop) :
    Prop where
  sendable : PostsSendable ids allowed
  posts : ∀ m action, C m action → Posts allowed m action
  internal : ∀ m action, Internal m action → C m action
  writes : ∀ m, ∃ answer, answer ≠ .count 0 ∧ C m (.write answer)

section Enabled

variable {names : List String} {ids : IdManager} {allowed : String → PacketArgs → Prop}
  {C : PacketMuxer → MuxerAction → Prop} {m : PacketMuxer}

theorem Proper.alive (proper : Proper ids allowed C) (built : IdManager.ofList names = some ids)
    (reach : (system ids).ReachUnder C m) (type : PacketType) : m.send ≠ .aborted type :=
  (reach_sendable built proper.sendable (reach.mono proper.posts)).2 type

theorem Effect.enabled {m' : PacketMuxer} {action : MuxerAction} {A : PacketMuxer → MuxerAction → Prop}
    (effect : Effect ids m action m') (proper : Proper ids allowed C) (alive : ∀ type, m.send ≠ .aborted type)
    (internal : Internal m action) (kind : A m action) : (system ids).Enabled C A m := by
  refine ⟨action, m', proper.internal _ _ internal, kind, effect.run alive ?_⟩
  rintro i name args rfl
  cases internal

/-- A send thread that nobody keeps from the lock can go on until it has left. -/
theorem Proper.enabled_send (proper : Proper ids allowed C) (built : IdManager.ofList names = some ids)
    (reach : (system ids).ReachUnder C m) (working : m.send ≠ .exited)
    (free : ∀ t, t ≠ .send → m.txLock.heldBy t = 0) : (system ids).Enabled C SendThread m := by
  have alive := proper.alive built reach
  have lock := reach_lockInv reach
  have clear : Clear ids m.destructor m := by
    refine ⟨reach.forget, fun i => ?_, rfl, ?_⟩
    · exact (lock (.user i)).symm.trans (free (.user i) (by simp))
    · exact (lock .destructor).symm.trans (free .destructor (by simp))
  have sends {m' : PacketMuxer} (effect : Effect ids m .send m') : (system ids).Enabled C SendThread m :=
    effect.enabled proper alive trivial trivial
  have control := IdManager.toId_controlString built
  cases at_pc : m.send with
  | entered => exact sends (.entered at_pc control)
  | hello pc =>
    by_cases idle : pc = .idle
    · exact sends (.greeted (idle ▸ at_pc))
    · obtain ⟨pc', next, step⟩ := clear.emplaced idle (by simp [at_pc, SendPc.holds])
      exact sends (.hello at_pc step)
  | lock =>
    obtain ⟨l, acquired⟩ := clear.acquire
    exact sends (.locked at_pc acquired)
  | test =>
    cases flag : m.transportError with
    | true => exact sends (.stops at_pc flag)
    | false => exact sends (.continues at_pc flag)
  | compare =>
    obtain ⟨l, released⟩ := clear.release (by simp [at_pc, SendPc.holds])
    by_cases equal : m.numPosted = m.numSent
    · exact sends (.waits at_pc equal released)
    · exact sends (.busy at_pc equal)
  | waiting n =>
    have woken : Effect ids m (.wake true) { m with send := .relock true } := .woken at_pc
    exact woken.enabled proper alive trivial trivial
  | relock timeout =>
    obtain ⟨l, acquired⟩ := clear.acquire
    cases timeout with
    | true => exact sends (.timedOut at_pc acquired control)
    | false => exact sends (.relocked at_pc acquired)
  | heartBeat pc =>
    by_cases idle : pc = .idle
    · exact sends (.beaten (idle ▸ at_pc))
    · obtain ⟨pc', next, step⟩ := clear.emplaced idle (by simp [at_pc, SendPc.holds])
      exact sends (.heartBeat at_pc step)
  | scan => exact (Effect.iterates at_pc (List.Perm.refl _)).enabled proper alive trivial trivial
  | visit types =>
    cases types with
    | nil => exact sends (.passed at_pc)
    | cons type types => exact sends (.visits at_pc)
  | drain type types =>
    cases flag : m.transportError with
    | true => exact sends (.drained at_pc (Or.inl flag))
    | false =>
      cases queue : m.txQueues.get type with
      | nil => exact sends (.drained at_pc (Or.inr queue))
      | cons packet packets =>
        by_cases invalid : packet.packet.type = IdManager.invalidPacket
        · exact sends (.asserted at_pc flag queue invalid)
        · exact sends (.handed at_pc flag queue invalid)
  | write type types fields ok =>
    cases fields with
    | nil => exact sends (.finished at_pc)
    | cons buffer fields =>
      cases buffer with
      | nil => exact sends (.skipped at_pc)
      | cons byte buffer =>
        have flag := (reach_writeInv reach).unset (Or.inr ⟨_, at_pc⟩)
        obtain ⟨answer, progress, permitted⟩ := proper.writes m
        cases answer with
        | error =>
          have failed : Effect ids m (.write .error) _ := .failed at_pc (by simp)
          exact ⟨_, _, permitted, progress, failed.run alive (by simp)⟩
        | count n =>
          have accepted : Effect ids m (.write (.count n)) _ := .accepted at_pc (by simp) flag
          exact ⟨_, _, permitted, progress, accepted.run alive (by simp)⟩
  | assign type types ok => exact sends (.assigned at_pc)
  | pop type types =>
    obtain ⟨packet, packets, -, queue, -⟩ := (reach_handInv reach).busy type (by rw [at_pc]; rfl)
    exact sends (.popped at_pc queue)
  | unlock =>
    obtain ⟨l, released⟩ := clear.release (by simp [at_pc, SendPc.holds])
    exact sends (.unlocked at_pc released)
  | exited => exact absurd at_pc working
  | aborted type => exact absurd at_pc (alive type)

/-- A call of `emplacePacket` that can get the lock, or has it, can go on. -/
theorem Proper.enabled_user (proper : Proper ids allowed C) (built : IdManager.ofList names = some ids)
    (reach : (system ids).ReachUnder C m) {i : Nat} (busy : m.users i ≠ .idle)
    (free : ∀ t, t ≠ .user i → m.txLock.heldBy t = 0) : (system ids).Enabled C (UserThread i) m := by
  have alive := proper.alive built reach
  have lock := reach_lockInv reach (.user i)
  have goes {pc pc' : PostPc} {m' : PacketMuxer} (at_pc : m.users i = pc) (step : Emplaced m (.user i) true pc pc' m') :
      (system ids).Enabled C (UserThread i) m := (Effect.user (at_pc ▸ step)).enabled proper alive trivial rfl
  cases at_pc : m.users i with
  | idle => exact absurd at_pc busy
  | locking name type args =>
    obtain ⟨l, acquired⟩ := RecursiveMutex.acquire_exists free
    exact goes at_pc (.locked acquired)
  | emplacing name type args =>
    cases made : ComPacket.make type args with
    | none => exact goes at_pc (.threw made)
    | some packet => exact goes at_pc (.emplaced rfl made)
  | signalling => exact goes at_pc .signalled
  | unlocking =>
    have held : 0 < m.txLock.heldBy (.user i) := by rw [lock]; simp [holds, at_pc, PostPc.holds]
    obtain ⟨l, released⟩ := RecursiveMutex.release_exists held
    exact goes at_pc (.unlocked released)

/-- So can the destructor, until it waits for the send thread. -/
theorem Proper.enabled_destructor (proper : Proper ids allowed C) (built : IdManager.ofList names = some ids)
    (reach : (system ids).ReachUnder C m)
    (called : m.destructor = .locking ∨ m.destructor = .storing ∨ m.destructor = .unlocking)
    (free : ∀ t, t ≠ .destructor → m.txLock.heldBy t = 0) : (system ids).Enabled C DestructorThread m := by
  have alive := proper.alive built reach
  have lock := reach_lockInv reach .destructor
  have goes {m' : PacketMuxer} (effect : Effect ids m .destroyed m') : (system ids).Enabled C DestructorThread m :=
    effect.enabled proper alive trivial trivial
  rcases called with at_pc | at_pc | at_pc
  · obtain ⟨l, acquired⟩ := RecursiveMutex.acquire_exists free
    exact goes (.destroyLocked at_pc acquired)
  · exact goes (.destroyStored at_pc)
  · have held : 0 < m.txLock.heldBy .destructor := by rw [lock]; simp [holds, at_pc, DestructorPc.holds]
    obtain ⟨l, released⟩ := RecursiveMutex.release_exists held
    exact goes (.destroyUnlocked at_pc released)

end Enabled

section Lock

variable {ids : IdManager} {m m' : PacketMuxer} {action : MuxerAction}

/-- A step takes the lock once, gives it back once, or leaves it alone. -/
def LockStep (m m' : PacketMuxer) : Prop :=
  m'.txLock = m.txLock ∨ (∃ t, m.txLock.acquire t = some m'.txLock) ∨ ∃ t, m.txLock.release t = some m'.txLock

theorem Emplaced.lockStep {t : MuxerThread} {alloc : Bool} {pc pc' : PostPc} (step : Emplaced m t alloc pc pc' m') :
    LockStep m m' := by
  cases step with
  | locked acquired => exact Or.inr (Or.inl ⟨t, acquired⟩)
  | unlocked released => exact Or.inr (Or.inr ⟨t, released⟩)
  | threw | emplaced => exact Or.inl rfl
  | signalled => exact Or.inl (notify_txLock _)

theorem Effect.lockStep (effect : Effect ids m action m') : LockStep m m' := by
  cases effect with
  | user step | hello _ step | heartBeat _ step =>
    have moved := step.lockStep
    exact moved
  | locked _ acquired | relocked _ acquired | timedOut _ acquired | destroyLocked _ acquired =>
    exact Or.inr (Or.inl ⟨_, acquired⟩)
  | waits _ _ released | unlocked _ released | destroyUnlocked _ released => exact Or.inr (Or.inr ⟨_, released⟩)
  | destroyStored => exact Or.inl (notify_txLock _)
  | _ => exact Or.inl rfl

/-- A thread that had the lock and has it no more leaves it free. -/
theorem Effect.freed (lock : LockInv m) (lock' : LockInv m') (effect : Effect ids m action m') {t : MuxerThread}
    (before : 0 < m.holds t) (after : m'.holds t = 0) : m'.txLock = .free := by
  rw [← lock t] at before
  rw [← lock' t] at after
  rcases effect.lockStep with same | ⟨u, acquired⟩ | ⟨u, released⟩
  · rw [same] at after
    omega
  · have grown := RecursiveMutex.acquire_heldBy acquired t
    omega
  · exact RecursiveMutex.release_last released before after

/-- The others leave a call of `emplacePacket` where it is. -/
theorem Effect.user_stands (effect : Effect ids m action m') {i : Nat} (other : ¬ UserThread i m action)
    (busy : m.users i ≠ .idle) : m'.users i = m.users i := by
  cases effect with
  | @called j name type args idle =>
    have different : i ≠ j := fun same => busy (same ▸ idle)
    exact Function.update_of_ne different _ _
  | @user j alloc pc next step =>
    have different : i ≠ j := fun same => other same.symm
    obtain ⟨-, users, -⟩ := step.lock
    exact (Function.update_of_ne different _ _).trans (congrFun users i)
  | hello _ step | heartBeat _ step =>
    obtain ⟨-, users, -⟩ := step.lock
    exact congrFun users i
  | destroyStored => exact congrFun (notify_users _) i
  | _ => rfl

theorem Effect.user_goes (effect : Effect ids m action m') {i : Nat} (own : UserThread i m action) :
    (m'.users i).rank < (m.users i).rank := by
  cases effect with
  | @user j alloc pc next step =>
    obtain rfl : j = i := own
    simpa using step.rank.1
  | _ => cases own

/-- What the destructor does is its call and its own steps. -/
theorem Effect.destructor_cases (effect : Effect ids m action m') : m'.destructor = m.destructor ∨
    action = .destroy ∧ m.destructor = .notCalled ∨ action = .destroyed ∧ m.destructor ≠ .notCalled := by
  cases effect with
  | destroy uncalled => exact Or.inr (Or.inl ⟨rfl, uncalled⟩)
  | destroyLocked at_pc | destroyStored at_pc | destroyUnlocked at_pc | destroyJoined at_pc =>
    exact Or.inr (Or.inr ⟨rfl, by simp [at_pc]⟩)
  | user step | hello _ step | heartBeat _ step =>
    obtain ⟨-, -, destructor, -⟩ := step.lock
    exact Or.inl destructor
  | _ => exact Or.inl rfl

/-- The others leave a destructor that has been called where it is. -/
theorem Effect.destructor_stands (effect : Effect ids m action m') (other : ¬ DestructorThread m action)
    (called : m.destructor ≠ .notCalled) : m'.destructor = m.destructor := by
  rcases effect.destructor_cases with same | ⟨-, uncalled⟩ | ⟨rfl, -⟩
  · exact same
  · exact absurd uncalled called
  · exact absurd trivial other

end Lock

section Runs

variable {names : List String} {ids : IdManager} {allowed : String → PacketArgs → Prop}
  {C : PacketMuxer → MuxerAction → Prop} {e : (system ids).Execution C}

/-- Whoever has the lock gives it back, if each of its steps brings it nearer to that. -/
theorem releases {ρ : Type} [PartialOrder ρ] [WellFoundedLT ρ] {t : MuxerThread} {A : PacketMuxer → MuxerAction → Prop}
    (fair : e.Fair A) (rank : PacketMuxer → ρ)
    (stands : ∀ m a m', (system ids).Reach m → Effect ids m a m' → ¬ A m a → 0 < m.holds t → rank m' = rank m)
    (goes : ∀ m a m', (system ids).Reach m → Effect ids m a m' → A m a → 0 < m.holds t → 0 < m'.holds t →
      rank m' < rank m)
    (enabled : ∀ m, (system ids).ReachUnder C m → 0 < m.holds t → (system ids).Enabled C A m) :
    e.LeadsTo (fun m => 0 < m.holds t) (fun m => m.txLock = .free) := by
  have still {m m' : PacketMuxer} {a : MuxerAction} (reach : (system ids).ReachUnder C m) (held : 0 < m.holds t)
      (met : C m a) (run : (system ids).step m a = some m') : m'.txLock = .free ∨ 0 < m'.holds t := by
    rcases Nat.eq_zero_or_pos (m'.holds t) with out | inside
    · exact Or.inl ((step_effect run).freed (reach_lockInv reach) (reach_lockInv (reach.next met run)) held out)
    · exact Or.inr inside
  refine .descend_own fair rank ?_ ?_ ?_
  · intro m a m' reach held met other run
    exact (still reach held met run).imp id
      (fun inside => ⟨inside, (stands m a m' reach.forget (step_effect run) other held).le⟩)
  · intro m a m' reach held met own run
    exact (still reach held met run).imp id
      (fun inside => ⟨inside, goes m a m' reach.forget (step_effect run) own held inside⟩)
  · exact fun n stays => ⟨n, Nat.le_refl n, enabled _ (e.reach n) (stays n (Nat.le_refl n)).1⟩

theorem others_free (reach : (system ids).ReachUnder C m) {t : MuxerThread} (held : 0 < m.holds t) :
    ∀ u, u ≠ t → m.txLock.heldBy u = 0 := by
  intro u other
  rw [reach_lockInv reach u]
  exact (reach_lockInv reach).exclusive held other

/-- How far the destructor is from giving the lock back. -/
def destructorRank (m : PacketMuxer) : Nat :=
  match m.destructor with
  | .storing => 2
  | .unlocking => 1
  | _ => 0

theorem send_releases (proper : Proper ids allowed C) (built : IdManager.ofList names = some ids)
    (fair : FairThreads e) : e.LeadsTo (fun m => 0 < m.holds .send) (fun m => m.txLock = .free) := by
  refine releases fair.send distance ?_ ?_ ?_
  · exact fun m a m' reach effect other _ => effect.distance_stands (reach_lockInv reach) (reach_writeInv reach) other
  · intro m a m' reach effect own _ held
    refine (effect.nears reach own).resolve_right (fun ⟨_, _, _, waiting⟩ => ?_)
    simp [holds, waiting, SendPc.holds] at held
  · intro m reach held
    refine proper.enabled_send built reach (fun exited => ?_) (others_free reach held)
    simp [holds, exited, SendPc.holds] at held

theorem user_releases (proper : Proper ids allowed C) (built : IdManager.ofList names = some ids) (fair : FairThreads e)
    (i : Nat) : e.LeadsTo (fun m => 0 < m.holds (.user i)) (fun m => m.txLock = .free) := by
  have busy {m : PacketMuxer} (held : 0 < m.holds (.user i)) : m.users i ≠ .idle := by
    intro idle
    simp [holds, idle, PostPc.holds] at held
  refine releases (fair.users i) (fun m => (m.users i).rank) ?_ ?_ ?_
  · exact fun m a m' _ effect other held => congrArg PostPc.rank (effect.user_stands other (busy held))
  · exact fun m a m' _ effect own _ _ => effect.user_goes own
  · exact fun m reach held => proper.enabled_user built reach (busy held) (others_free reach held)

theorem destructor_releases (proper : Proper ids allowed C) (built : IdManager.ofList names = some ids)
    (fair : FairThreads e) : e.LeadsTo (fun m => 0 < m.holds .destructor) (fun m => m.txLock = .free) := by
  refine releases fair.destructor destructorRank ?_ ?_ ?_
  · intro m a m' _ effect other held
    have called : m.destructor ≠ .notCalled := by
      intro uncalled
      simp [holds, uncalled, DestructorPc.holds] at held
    simp only [destructorRank, effect.destructor_stands other called]
  · intro m a m' _ effect own held held'
    cases effect with
    | destroyStored at_pc => simp [destructorRank, at_pc]
    | destroyLocked at_pc => simp [holds, at_pc, DestructorPc.holds] at held
    | destroyUnlocked | destroyJoined => simp [holds, DestructorPc.holds] at held'
    | _ => cases own
  · intro m reach held
    refine proper.enabled_destructor built reach ?_ (others_free reach held)
    cases at_pc : m.destructor <;> simp [holds, at_pc, DestructorPc.holds] at held ⊢

/-- Whoever has `m_txLock`, and whatever the transport accepts at a time, the lock becomes free again. -/
theorem lock_freed (proper : Proper ids allowed C) (built : IdManager.ofList names = some ids) (fair : FairThreads e) :
    e.LeadsTo (fun _ => True) (fun m => m.txLock = .free) := by
  intro n _
  have lock := reach_lockInv (e.reach n)
  cases owned : (e.state n).txLock with
  | free => exact ⟨n, Nat.le_refl n, owned⟩
  | held t extra =>
    have held : 0 < (e.state n).holds t := by
      rw [← lock t, owned]
      simp [RecursiveMutex.heldBy]
    cases t with
    | send => exact send_releases proper built fair n held
    | destructor => exact destructor_releases proper built fair n held
    | user i => exact user_releases proper built fair i n held

/-- Behind the test of the flag the send thread leaves only if it is set. -/
theorem reach_leaving {m : PacketMuxer} (reach : (system ids).Reach m) (leaving : m.send = .unlock ∨ m.send = .exited) :
    m.transportError = true := by
  revert leaving
  refine reach.invariant (I := fun m => m.send = .unlock ∨ m.send = .exited → m.transportError = true)
    (by simp [system]) ?_
  intro m a m' before inv _ run leaving
  have effect := step_effect run
  have keeps := effect.keeps_flag (reach_writeInv before)
  cases effect with
  | threw | called | destroy | destroyLocked | destroyUnlocked | destroyJoined => exact keeps (inv leaving)
  | user step =>
    exact keeps (inv (leaving.imp (fun left => step.send.before left (by simp))
      (fun left => step.send.before left (by simp))))
  | destroyStored => simp
  | stops _ flag => exact flag
  | unlocked at_pc => exact keeps (inv (Or.inl at_pc))
  | _ => simp at leaving

/-- Every call of `emplacePacket` returns. -/
theorem post_returns (proper : Proper ids allowed C) (built : IdManager.ofList names = some ids) (fair : FairThreads e)
    (i : Nat) : e.LeadsTo (fun m => m.users i ≠ .idle) (fun m => m.users i = .idle) := by
  refine .descend_own (fair.users i) (fun m => (m.users i).rank) ?_ ?_ ?_
  · intro m a m' reach busy met other run
    refine or_iff_not_imp_left.mpr (fun still => ⟨still, ?_⟩)
    exact (congrArg PostPc.rank ((step_effect run).user_stands other busy)).le
  · intro m a m' reach busy met own run
    exact or_iff_not_imp_left.mpr (fun still => ⟨still, (step_effect run).user_goes own⟩)
  · intro n stays
    obtain ⟨m, later, free⟩ := lock_freed proper built fair n trivial
    exact ⟨m, later, proper.enabled_user built (e.reach m) (stays m later).1 (fun t _ => by rw [free]; rfl)⟩

/-- A packet stays in its queue until it is popped. -/
theorem QueueChange.queued {m m' : PacketMuxer} (change : QueueChange m m') {type : PacketType} {packet : SharedPacket}
    (queued : packet ∈ m.txQueues.get type) : packet ∈ m'.txQueues.get type ∨ packet ∈ pops m'.log := by
  cases change with
  | quiet _ _ get | handed _ _ _ _ get => exact Or.inl (get ▸ queued)
  | @posted name p _ _ _ get =>
    refine Or.inl ?_
    rw [get]
    by_cases same : type = p.type
    · subst same
      simp [queued]
    · simpa [same] using queued
  | @popped other p packets _ _ queue log get =>
    by_cases same : type = other
    · subst same
      rw [queue, List.mem_cons] at queued
      rcases queued with rfl | behind
      · exact Or.inr (by simp [log])
      · exact Or.inl (by simpa [get] using behind)
    · exact Or.inl (by simpa [get, same] using queued)

theorem QueueChange.log_grows {m m' : PacketMuxer} (change : QueueChange m m') : m.log <+: m'.log := by
  cases change with
  | quiet _ log => exact log ▸ List.prefix_rfl
  | posted _ _ log | handed _ _ _ log | popped _ _ _ log => exact log ▸ List.prefix_append _ _

/-- A packet in a queue is popped, unless the flag stops the send thread. -/
theorem queued_popped (proper : Proper ids allowed C) (built : IdManager.ofList names = some ids) (fair : FairThreads e)
    (type : PacketType) (packet : SharedPacket) : e.LeadsTo (fun m => packet ∈ m.txQueues.get type)
      (fun m => packet ∈ pops m.log ∨ m.transportError = true) := by
  have kept {m m' : PacketMuxer} {a : MuxerAction} (reach : (system ids).ReachUnder C m)
      (queued : packet ∈ m.txQueues.get type) (run : (system ids).step m a = some m') :
      (packet ∈ pops m'.log ∨ m'.transportError = true) ∨ packet ∈ m'.txQueues.get type :=
    (((step_effect run).queueChange (reach_lockInv reach)).queued queued).elim Or.inr (fun out => Or.inl (Or.inl out))
  have nearer {m m' : PacketMuxer} {a : MuxerAction} (reach : (system ids).ReachUnder C m)
      (queued : packet ∈ m.txQueues.get type) (own : SendThread m a) (run : (system ids).step m a = some m') :
      m'.distance < m.distance := by
    refine ((step_effect run).nears reach.forget own).resolve_right (fun ⟨_, _, empty, _⟩ => ?_)
    rw [KeyedLists.get_eq_nil_of_total empty type] at queued
    cases queued
  refine .descend_own fair.send distance ?_ ?_ ?_
  · intro m a m' reach queued met other run
    refine (kept reach queued run).imp id (fun still => ⟨still, ?_⟩)
    exact ((step_effect run).distance_stands (reach_lockInv reach) (reach_writeInv reach) other).le
  · intro m a m' reach queued met own run
    exact (kept reach queued run).imp id (fun still => ⟨still, nearer reach queued own run⟩)
  · intro n stays
    obtain ⟨m, later, free⟩ := lock_freed proper built fair n trivial
    refine ⟨m, later, proper.enabled_send built (e.reach m) (fun exited => ?_) (fun t _ => by rw [free]; rfl)⟩
    exact (stays m later).2 (Or.inr (reach_leaving (e.reach m).forget (Or.inr exited)))

/-- What was posted was popped or is in its queue. -/
theorem popped_or_queued {m : PacketMuxer} (reach : (system ids).ReachUnder C m) {packet : SharedPacket}
    (posted : packet ∈ posts m.log) : packet ∈ pops m.log ∨ packet ∈ m.txQueues.get packet.packet.type := by
  obtain ⟨f, -, related⟩ := (refines_fifo ids C).reach reach
  have balance := related.balance packet.packet.type
  have member : packet ∈ postsOf packet.packet.type m.log := by simp [postsOf, posted]
  rw [← balance, List.mem_append] at member
  exact member.imp (fun out => (List.mem_filter.mp out).1) id

theorem posted_popped (proper : Proper ids allowed C) (built : IdManager.ofList names = some ids) (fair : FairThreads e)
    (packet : SharedPacket) : e.LeadsTo (fun m => packet ∈ posts m.log)
      (fun m => packet ∈ pops m.log ∨ m.transportError = true) :=
  (queued_popped proper built fair packet.packet.type packet).cases (.of_imp (fun _ _ => Or.inl))
    (fun _ reach posted => (popped_or_queued reach posted).symm)

theorem log_kept (e : (system ids).Execution C) {n m : Nat} (later : n ≤ m) : (e.state n).log <+: (e.state m).log := by
  refine TransitionSystem.Execution.lasts (P := fun s : PacketMuxer => (e.state n).log <+: s.log) ?_
    List.prefix_rfl later
  exact fun m a m' reach before _ run => before.trans ((step_effect run).queueChange (reach_lockInv reach)).log_grows

/-- All that was posted by now under a type is popped, in its order. -/
theorem all_popped (proper : Proper ids allowed C) (built : IdManager.ofList names = some ids) (fair : FairThreads e)
    (type : PacketType) (n : Nat) : ∃ m, n ≤ m ∧ ((e.state m).transportError = true ∨
      postsOf type (e.state n).log <+: popsOf type (e.state m).log) := by
  rcases List.eq_nil_or_concat (postsOf type (e.state n).log) with none | ⟨before, packet, all⟩
  · exact ⟨n, Nat.le_refl n, Or.inr (none ▸ List.nil_prefix)⟩
  · have last : packet ∈ postsOf type (e.state n).log := by rw [all]; simp
    obtain ⟨posted, typed⟩ := List.mem_filter.mp last
    obtain ⟨m, later, popped | flag⟩ := posted_popped proper built fair packet n posted
    · refine ⟨m, later, Or.inr ?_⟩
      obtain ⟨f, -, related⟩ := (refines_fifo ids C).reach (e.reach m)
      have distinct : (postsOf type (e.state m).log).Nodup := (reach_handInv (e.reach m)).distinct.filter _
      have grown : postsOf type (e.state n).log <+: postsOf type (e.state m).log :=
        ((log_kept e later).filterMap _).filter _
      have part : popsOf type (e.state m).log <+: postsOf type (e.state m).log := ⟨_, related.balance type⟩
      rw [all, List.concat_eq_append] at grown ⊢
      exact List.concat_prefix_of_mem distinct grown part (List.mem_filter.mpr ⟨popped, typed⟩)
    · exact ⟨m, later, Or.inl flag⟩

/-- Until the flag is set, what was popped has been written. -/
theorem popped_written {m : PacketMuxer} (reach : (system ids).ReachUnder C m) (flag : m.transportError = false) :
    pops m.log <+: m.written := by
  have write := reach_writeInv reach
  have hand := reach_handInv reach
  have split := hand.hands_eq
  cases writing : m.send.unwritten with
  | none =>
    rw [write.even writing flag, split]
    exact List.prefix_append _ _
  | some bytes =>
    obtain ⟨type, sending⟩ := SendPc.unwritten_sending writing
    obtain ⟨front, packets, -, queue, -⟩ := hand.busy type sending
    rw [(write.calm bytes writing).2, split, sending]
    simp [queue]

/-- The muxer keeps its promises: over a live transport every call of `emplacePacket` returns, and every packet
posted is written whole, unless the flag is set. -/
theorem posts_written (names : List String) (ids : IdManager) (built : IdManager.ofList names = some ids)
    (allowed : String → PacketArgs → Prop) (C : PacketMuxer → MuxerAction → Prop) (proper : Proper ids allowed C)
    (e : (system ids).Execution C) (fair : FairThreads e) :
    (∀ i, e.LeadsTo (fun m => m.users i ≠ .idle) (fun m => m.users i = .idle)) ∧
    ∀ packet, e.LeadsTo (fun m => packet ∈ posts m.log)
      (fun m => packet ∈ m.written ∨ m.transportError = true) := by
  refine ⟨post_returns proper built fair, fun packet => ?_⟩
  refine (posted_popped proper built fair packet).mono (fun _ _ => id) (fun m reach gone => ?_)
  cases flag : m.transportError with
  | true => exact Or.inr rfl
  | false => exact Or.inl ((popped_written reach flag).subset (gone.resolve_right (by simp [flag])))

/-- As long as the flag is not set, the send thread comes to wait, and then there is nothing to send. -/
theorem comes_to_rest (proper : Proper ids allowed C) (built : IdManager.ofList names = some ids)
    (fair : FairThreads e) :
    e.LeadsTo (fun m => m.transportError = false) (fun m => (m.send = .waiting false ∧ m.numPosted = m.numSent ∧
      ∀ type, m.txQueues.get type = []) ∨ m.transportError = true) := by
  have unset (m : PacketMuxer) : m.transportError = true ∨ m.transportError = false := by
    cases m.transportError <;> simp
  have nearer {m m' : PacketMuxer} {a : MuxerAction} (reach : (system ids).ReachUnder C m) (own : SendThread m a)
      (run : (system ids).step m a = some m') : m'.distance < m.distance ∨
        m'.send = .waiting false ∧ m'.numPosted = m'.numSent ∧ ∀ type, m'.txQueues.get type = [] := by
    have effect := step_effect run
    refine (effect.nears reach.forget own).imp id (fun ⟨at_pc, _, empty, waiting⟩ => ?_)
    cases effect with
    | waits _ equal => exact ⟨waiting, equal, KeyedLists.get_eq_nil_of_total empty⟩
    | _ => simp_all [SendThread]
  refine .descend_own fair.send distance ?_ ?_ ?_
  · intro m a m' reach flag met other run
    have same := (step_effect run).distance_stands (reach_lockInv reach) (reach_writeInv reach) other
    exact (unset m').elim (fun set => Or.inl (Or.inr set)) (fun still => Or.inr ⟨still, same.le⟩)
  · intro m a m' reach flag met own run
    rcases nearer reach own run with less | rest
    · exact (unset m').elim (fun set => Or.inl (Or.inr set)) (fun still => Or.inr ⟨still, less⟩)
    · exact Or.inl (Or.inl rest)
  · intro n stays
    obtain ⟨m, later, free⟩ := lock_freed proper built fair n trivial
    refine ⟨m, later, proper.enabled_send built (e.reach m) (fun exited => ?_) (fun t _ => by rw [free]; rfl)⟩
    exact (stays m later).2 (Or.inr (reach_leaving (e.reach m).forget (Or.inr exited)))

/-- The muxer keeps up. Again and again all queues are empty and the counters agree, however much is posted meanwhile,
unless the flag is set. -/
theorem keeps_up (names : List String) (ids : IdManager) (built : IdManager.ofList names = some ids)
    (allowed : String → PacketArgs → Prop) (C : PacketMuxer → MuxerAction → Prop) (proper : Proper ids allowed C)
    (e : (system ids).Execution C) (fair : FairThreads e) (n : Nat) : ∃ m, n ≤ m ∧ ((e.state m).transportError = true ∨
      (e.state m).numPosted = (e.state m).numSent ∧ ∀ type, (e.state m).txQueues.get type = []) := by
  cases flag : (e.state n).transportError with
  | true => exact ⟨n, Nat.le_refl n, Or.inl flag⟩
  | false =>
    obtain ⟨m, later, rest⟩ := comes_to_rest proper built fair n flag
    exact ⟨m, later, rest.symm.imp id And.right⟩

/-- A muxer that is gone holds no thread up. -/
theorem fair_left {actions : List MuxerAction} {m : PacketMuxer}
    (met : TransitionSystem.Execution.Meets (system ids) C (system ids).start actions)
    (run : (system ids).run (system ids).start actions = some m) (exited : m.send = .exited)
    (idle : m.users = fun _ => .idle) (gone : m.destructor = .returned) :
    FairThreads (TransitionSystem.Execution.ofRun (system ids) actions met run) := by
  open TransitionSystem.Execution in
  refine ⟨fair_ofRun ?_, fun i => fair_ofRun ?_, fair_ofRun ?_⟩
  · rintro ⟨a, m', -, own, step⟩
    cases step_effect step with
    | threw | called | user | destroy | destroyLocked | destroyStored | destroyUnlocked | destroyJoined => cases own
    | _ => simp_all
  · rintro ⟨a, m', -, own, step⟩
    cases step_effect step with
    | user emplace =>
      rw [idle] at emplace
      cases emplace
    | _ => cases own
  · rintro ⟨a, m', -, own, step⟩
    cases step_effect step with
    | destroyLocked at_pc | destroyStored at_pc | destroyUnlocked at_pc | destroyJoined at_pc =>
      rw [gone] at at_pc
      cases at_pc
    | _ => cases own

end Runs

/-- The Hello packet is sent, and the destructor stops a send thread that waits. -/
def sendsAndLeaves : List MuxerAction :=
  storesAsleep ++ [.destroyed, .wake false, .send, .iterate [1], .send, .send, .send, .send, .send, .destroyed]

theorem sendsAndLeaves_met (ids : IdManager) (allowed : String → PacketArgs → Prop) :
    TransitionSystem.Execution.Meets (system ids) (Posts allowed) (system ids).start sendsAndLeaves := by
  refine .of_forall (fun action member m => ?_) _
  cases action with
  | post i name args => simp [sendsAndLeaves, storesAsleep] at member
  | _ => trivial

/-- A program that posts under the names of its list. -/
theorem proper_named {names : List String} {ids : IdManager} (built : IdManager.ofList names = some ids)
    (few : names.length ≤ 2 ^ 32 - 2) :
    Proper ids (fun name _ => name ∈ names) (Posts (fun name _ => name ∈ names)) := by
  refine ⟨?_, fun _ _ => id, ?_, fun _ => ⟨.count 1, by simp, trivial⟩⟩
  · intro name args packet listed issued made
    obtain ⟨i, bound, rfl⟩ := List.mem_iff_getElem.mp listed
    rw [IdManager.toId_getElem built bound, Option.some.injEq, ← UInt32.toNat_inj, UInt32.toNat_ofNat'] at issued
    have none : IdManager.invalidPacket.toNat = 0 := rfl
    rw [none] at issued
    omega
  · intro m action internal
    cases action with
    | post => cases internal
    | _ => trivial

/-- A packet is posted and sent after the Hello packet, and the send thread waits again. -/
def sendsPost : List MuxerAction := helloThenPost ++ List.replicate 5 .send

theorem posts_written_once : ∃ (ids : IdManager)
    (e : (system ids).Execution (Posts (fun name _ => name ∈ ["A"]))) (n : Nat),
    IdManager.ofList ["A"] = some ids ∧ (e.state n).written = [⟨1, ControlMessage.hello.packet⟩, ⟨0, 2, [7]⟩] ∧
    (∀ i, e.LeadsTo (fun m => m.users i ≠ .idle) (fun m => m.users i = .idle)) ∧
    ∀ packet, e.LeadsTo (fun m => packet ∈ posts m.log)
      (fun m => packet ∈ m.written ∨ m.transportError = true) := by
  have again : [.locking "A" 2 (.moved [7]), .emplacing "A" 2 (.moved [7]), .signalling, .unlocking, .idle].foldl
      (fun users pc => Function.update users 0 pc) (fun _ : Nat => PostPc.idle) = fun _ => .idle := by simp
  obtain ⟨ids, built, m, run, parked, written⟩ : ∃ ids, IdManager.ofList ["A"] = some ids ∧
      ∃ m, (system ids).run {} sendsPost = some m ∧ m.Parked ∧
        m.written = [⟨1, ControlMessage.hello.packet⟩, ⟨0, 2, [7]⟩] := by
    refine ⟨_, rfl, _, rfl, ⟨rfl, rfl, rfl, rfl, fun type => ?_, congrFun again, rfl⟩, rfl⟩
    exact KeyedLists.get_eq_nil_of_total (by rfl) type
  have posts : ∀ m a, Loops a → Posts (fun name _ => name ∈ ["A"]) m a := by
    intro m a loops
    cases a <;> trivial
  have met : ∀ a ∈ sendsPost, ∀ m, Posts (fun name _ => name ∈ ["A"]) m a := by
    intro a member m
    cases a with
    | post i name args =>
      have named : name = "A" := by
        simp [sendsPost, helloThenPost] at member
        exact member.2.1
      exact List.mem_singleton.mpr named
    | _ => trivial
  obtain ⟨e, fair, often⟩ := exists_endless (by simp [sendsPost, helloThenPost]) (.of_forall met _) run parked posts
  obtain ⟨n, -, now⟩ := often 0
  exact ⟨ids, e, n, built, by rw [now, written],
    posts_written ["A"] ids built _ _ (proper_named built (by decide)) e fair⟩

/-- The Hello packet is sent, and the send thread waits again. -/
def sendsHello : List MuxerAction := aloneUntilHello ++ List.replicate 5 .send

theorem keeps_up_hello : ∃ (ids : IdManager) (e : (system ids).Execution (Posts (fun name _ => name ∈ ["A"]))),
    IdManager.ofList ["A"] = some ids ∧ (∀ k, ∃ n, k ≤ n ∧ (e.state n).transportError = false ∧
      (e.state n).wire = ControlMessage.hello.packet.frame) ∧
    ∀ n, ∃ m, n ≤ m ∧ ((e.state m).transportError = true ∨
      (e.state m).numPosted = (e.state m).numSent ∧ ∀ type, (e.state m).txQueues.get type = []) := by
  obtain ⟨ids, built, m, run, parked, wire⟩ : ∃ ids, IdManager.ofList ["A"] = some ids ∧
      ∃ m, (system ids).run {} sendsHello = some m ∧ m.Parked ∧ m.wire = ControlMessage.hello.packet.frame := by
    refine ⟨_, rfl, _, rfl, ⟨rfl, rfl, rfl, rfl, fun type => ?_, fun _ => rfl, rfl⟩, rfl⟩
    exact KeyedLists.get_eq_nil_of_total (by rfl) type
  have posts : ∀ m a, Loops a → Posts (fun name _ => name ∈ ["A"]) m a := by
    intro m a loops
    cases a <;> trivial
  have met : ∀ a ∈ sendsHello, ∀ m, Posts (fun name _ => name ∈ ["A"]) m a := by
    intro a member m
    cases a with
    | post => simp [sendsHello, aloneUntilHello] at member
    | _ => trivial
  obtain ⟨e, fair, comes⟩ := exists_endless (by decide) (.of_forall met _) run parked posts
  refine ⟨ids, e, built, fun k => ?_, keeps_up ["A"] ids built _ _ (proper_named built (by decide)) e fair⟩
  obtain ⟨n, later, now⟩ := comes k
  exact ⟨n, later, by rw [now]; exact parked.calm, by rw [now]; exact wire⟩

end PacketComms.PacketMuxer
