import PacketComms.Lib.Totals
import PacketComms.Muxer.Queues

namespace PacketComms

/-- The packet of the call is in its queue and is not counted yet. -/
def PostPc.signals : PostPc → Bool
  | .signalling => true
  | _ => false

/-- The same of the calls that the send thread makes. -/
def SendPc.signals : SendPc → Bool
  | .hello pc | .heartBeat pc => pc.signals
  | _ => false

theorem PostPc.signals_iff {pc : PostPc} : pc.signals = true ↔ pc = .signalling := by
  cases pc <;> simp [PostPc.signals]

theorem PostPc.signals_holds {pc : PostPc} (signals : pc.signals = true) : pc.holds = 1 := by
  cases pc <;> simp_all [PostPc.signals, PostPc.holds]

theorem SendPc.signals_holds {pc : SendPc} (signals : pc.signals = true) : 0 < pc.holds := by
  cases pc with
  | hello pc | heartBeat pc =>
    have one : pc.holds = 1 := PostPc.signals_holds signals
    simp [SendPc.holds, one]
  | _ => cases signals

namespace PacketMuxer

def signals (m : PacketMuxer) : MuxerThread → Bool
  | .send => m.send.signals
  | .user i => (m.users i).signals
  | .destructor => false

/-- Some packet is in its queue and is not counted yet. -/
def Signals (m : PacketMuxer) : Prop := ∃ t, m.signals t = true

theorem signals_holds {m : PacketMuxer} {t : MuxerThread} (signals : m.signals t = true) : 0 < m.holds t := by
  cases t with
  | send => exact SendPc.signals_holds signals
  | user i =>
    have one : (m.users i).holds = 1 := PostPc.signals_holds signals
    simp [holds, one]
  | destructor => cases signals

/-- While a thread holds the lock, only its own packet can be uncounted. -/
theorem LockInv.signals_iff {m : PacketMuxer} (inv : LockInv m) {t : MuxerThread} (held : 0 < m.holds t) :
    m.Signals ↔ m.signals t = true := by
  constructor
  · rintro ⟨u, signals⟩
    by_cases same : u = t
    · exact same ▸ signals
    · have free := inv.exclusive held same
      have positive := signals_holds signals
      omega
  · exact fun signals => ⟨t, signals⟩

theorem LockInv.calm_of_free {m : PacketMuxer} (inv : LockInv m) (free : m.txLock = .free) : ¬ m.Signals := by
  rintro ⟨t, signals⟩
  have none := inv t
  rw [free, RecursiveMutex.heldBy_free] at none
  have positive := signals_holds signals
  omega

/-- The send thread has the lock, and is not about to count a packet itself. -/
theorem LockInv.calm_of_send {m : PacketMuxer} (inv : LockInv m) {pc : SendPc} (at_pc : m.send = pc)
    (held : 0 < pc.holds) (silent : pc.signals = false) : ¬ m.Signals := by
  have own : 0 < m.holds .send := by rw [holds, at_pc]; exact held
  rw [inv.signals_iff own, signals, at_pc, silent]
  exact Bool.false_ne_true

@[simp] theorem notify_numPosted (m : PacketMuxer) : m.notify.numPosted = m.numPosted := by unfold notify; split <;> rfl
@[simp] theorem notify_numSent (m : PacketMuxer) : m.notify.numSent = m.numSent := by unfold notify; split <;> rfl

@[simp] theorem notify_signals (m : PacketMuxer) : m.notify.signals = m.signals := by
  funext t
  cases t with
  | send =>
    change m.notify.send.signals = m.send.signals
    exact m.notify_send.congr SendPc.signals (fun _ => rfl)
  | user i => simp [signals]
  | destructor => rfl

/-- What a step does to the counters and to what they count. -/
inductive CountChange (m m' : PacketMuxer) : Prop
  | quiet : m'.signals = m.signals → m'.numPosted = m.numPosted → m'.numSent = m.numSent →
      posts m'.log = posts m.log → pops m'.log = pops m.log → m'.txQueues.total = m.txQueues.total → CountChange m m'
  | posted {packet} : ¬ m.Signals → m'.Signals → m'.numPosted = m.numPosted → m'.numSent = m.numSent →
      posts m'.log = posts m.log ++ [packet] → pops m'.log = pops m.log →
      m'.txQueues.total = m.txQueues.total + 1 → CountChange m m'
  | signalled : m.Signals → ¬ m'.Signals → m'.numPosted = m.numPosted + 1 → m'.numSent = m.numSent →
      posts m'.log = posts m.log → pops m'.log = pops m.log → m'.txQueues.total = m.txQueues.total → CountChange m m'
  | popped {packet} : m'.signals = m.signals → m'.numPosted = m.numPosted → m'.numSent = m.numSent + 1 →
      posts m'.log = posts m.log → pops m'.log = pops m.log ++ [packet] →
      m'.txQueues.total + 1 = m.txQueues.total → CountChange m m'

/-- A step of `emplacePacket` by `t`, seen in any state that differs from its result only in
the program counters. -/
theorem Emplaced.countChange {m m' next : PacketMuxer} {t : MuxerThread} {alloc : Bool} {pc pc' : PostPc}
    (step : Emplaced m t alloc pc pc' m') (lock : LockInv m) (lock' : LockInv next)
    (before : m.signals t = pc.signals) (after : next.signals = Function.update m.signals t pc'.signals)
    (held : pc.holds ≤ m.holds t) (held' : pc'.holds ≤ next.holds t)
    (numPosted : next.numPosted = m'.numPosted) (numSent : next.numSent = m'.numSent) (log : next.log = m'.log)
    (txQueues : next.txQueues = m'.txQueues) : CountChange m next := by
  have same (unmoved : pc'.signals = pc.signals) : next.signals = m.signals := by
    rw [after, unmoved, ← before, Function.update_eq_self]
  cases step with
  | locked | unlocked => exact .quiet (same rfl) numPosted numSent (by rw [log]) (by rw [log]) (by rw [txQueues])
  | threw =>
    refine .quiet (same rfl) numPosted numSent (by rw [log]) (by rw [log]) ?_
    rw [txQueues]
    exact KeyedLists.total_congr (by funext k; simp)
  | @emplaced name type args packet =>
    have posted : posts next.log = posts m.log ++ [⟨m.nextAddr, packet⟩] := by rw [log]; simp
    refine .posted ?_ ?_ numPosted numSent posted (by rw [log]; simp) ?_
    · rw [lock.signals_iff (Nat.lt_of_lt_of_le Nat.one_pos held), before]
      simp [PostPc.signals]
    · exact ⟨t, by rw [after]; simp [PostPc.signals]⟩
    · have grown := m.txQueues.total_set type (m.txQueues.get type ++ [⟨m.nextAddr, packet⟩])
      rw [txQueues]
      simp only [List.length_append, List.length_singleton] at grown ⊢
      omega
  | signalled =>
    refine .signalled ⟨t, by rw [before]; rfl⟩ ?_ ?_ ?_ ?_ ?_ ?_
    · rw [lock'.signals_iff (Nat.lt_of_lt_of_le Nat.one_pos held'), after]
      simp [PostPc.signals]
    · rw [numPosted]; simp [signalPacketPosted]
    · rw [numSent]; simp [signalPacketPosted]
    · rw [log]; simp [signalPacketPosted]
    · rw [log]; simp [signalPacketPosted]
    · rw [txQueues]; simp [signalPacketPosted]

theorem Effect.countChange {ids : IdManager} {m m' : PacketMuxer} {action : MuxerAction} (lock : LockInv m)
    (effect : Effect ids m action m') : CountChange m m' := by
  have lock' := effect.lockInv lock
  have still (send : m'.send.signals = m.send.signals) (users : m'.users = m.users) : m'.signals = m.signals := by
    funext t
    cases t <;> simp [signals, send, users]
  cases effect with
  | threw => exact .quiet rfl rfl rfl rfl rfl rfl
  | @called i name type args idle =>
    refine .quiet ?_ rfl rfl rfl rfl rfl
    funext t
    cases t with
    | user j =>
      by_cases same : j = i
      · subst same
        simp [signals, idle, PostPc.signals]
      · simp [signals, same]
    | _ => rfl
  | @user i alloc pc next step =>
    obtain ⟨-, users, -, -, -⟩ := step.lock
    refine step.countChange lock lock' rfl ?_ (Nat.le_refl _) (by simp [holds]) rfl rfl rfl rfl
    funext t
    cases t with
    | user j =>
      by_cases same : j = i
      · subst same
        simp [signals]
      · simp [signals, same, users]
    | send =>
      have same := step.send.congr SendPc.signals (fun _ => rfl)
      simp [signals, same]
    | destructor => rfl
  | hello at_pc step | heartBeat at_pc step =>
    obtain ⟨-, users, -, -, -⟩ := step.lock
    refine step.countChange lock lock' (by simp [signals, at_pc, SendPc.signals]) ?_
      (by simp [holds, at_pc, SendPc.holds]) (by simp [holds, SendPc.holds]) rfl rfl rfl rfl
    funext t
    cases t <;> simp [signals, SendPc.signals, users]
  | @popped type types packet packets at_pc queue =>
    have popped : pops (m.log ++ [.popped packet]) = pops m.log ++ [packet] := by simp
    refine .popped (still (by rw [at_pc]; rfl) rfl) rfl rfl (by simp) popped ?_
    have shrunk := m.txQueues.total_set type packets
    rw [queue, List.length_cons] at shrunk
    dsimp only
    omega
  | handed at_pc | asserted at_pc =>
    exact .quiet (still (by rw [at_pc]; rfl) rfl) rfl rfl (by simp) (by simp) rfl
  | destroyStored => exact .quiet (by simp; rfl) (by simp) (by simp) (by simp) (by simp) (by simp)
  | destroy | destroyLocked | destroyUnlocked | destroyJoined => exact .quiet (still rfl rfl) rfl rfl rfl rfl rfl
  | entered at_pc | greeted at_pc | locked at_pc | continues at_pc | stops at_pc | waits at_pc | busy at_pc
  | woken at_pc | relocked at_pc | timedOut at_pc | beaten at_pc | iterates at_pc | passed at_pc | visits at_pc
  | drained at_pc | skipped at_pc | failed at_pc | accepted at_pc | interrupted at_pc | finished at_pc
  | assigned at_pc | unlocked at_pc => exact .quiet (still (by rw [at_pc]; rfl) rfl) rfl rfl rfl rfl rfl

/-- The counters count the posts and the pops, the first one with a delay between the post
and its signal. -/
structure CountInv (m : PacketMuxer) : Prop where
  posted : ¬ m.Signals → m.numPosted = UInt32.ofNat (posts m.log).length
  pending : m.Signals → m.numPosted + 1 = UInt32.ofNat (posts m.log).length
  sent : m.numSent = UInt32.ofNat (pops m.log).length
  total : (pops m.log).length + m.txQueues.total = (posts m.log).length

theorem CountChange.countInv {m m' : PacketMuxer} (inv : CountInv m) (change : CountChange m m') : CountInv m' := by
  obtain ⟨posted, pending, sent, total⟩ := inv
  cases change with
  | quiet signals numPosted numSent log log' queued =>
    have same : m'.Signals ↔ m.Signals := by simp [Signals, signals]
    refine ⟨?_, ?_, by rw [numSent, log']; exact sent, by rw [log, log', queued]; exact total⟩
    · rw [same, numPosted, log]; exact posted
    · rw [same, numPosted, log]; exact pending
  | posted before after numPosted numSent log log' queued =>
    refine ⟨fun calm => absurd after calm, fun _ => ?_, by rw [numSent, log']; exact sent, ?_⟩
    · rw [numPosted, log, List.length_append, List.length_singleton, UInt32.ofNat_add, posted before]
      rfl
    · rw [log, log', queued, List.length_append, List.length_singleton]
      omega
  | signalled before after numPosted numSent log log' queued =>
    refine ⟨fun _ => ?_, fun signals => absurd signals after, by rw [numSent, log']; exact sent, ?_⟩
    · rw [numPosted, log, pending before]
    · rw [log, log', queued]
      exact total
  | popped signals numPosted numSent log log' queued =>
    have same : m'.Signals ↔ m.Signals := by simp [Signals, signals]
    refine ⟨?_, ?_, ?_, ?_⟩
    · rw [same, numPosted, log]; exact posted
    · rw [same, numPosted, log]; exact pending
    · rw [numSent, log', List.length_append, List.length_singleton, UInt32.ofNat_add, sent]
      rfl
    · rw [log, log', List.length_append, List.length_singleton]
      omega

theorem reach_countInv {ids : IdManager} {C : PacketMuxer → MuxerAction → Prop} {m : PacketMuxer}
    (reach : (system ids).ReachUnder C m) : CountInv m := by
  refine reach.invariant ⟨fun _ => rfl, ?_, rfl, rfl⟩ ?_
  · rintro ⟨t, signals⟩
    cases t <;> cases signals
  · exact fun before inv _ run => ((step_effect run).countChange (reach_lockInv before)).countInv inv

/-- Where every post has been counted, the difference of the counters counts the queued packets. -/
theorem CountInv.balance {m : PacketMuxer} (inv : CountInv m) (calm : ¬ m.Signals) :
    m.numPosted - m.numSent = UInt32.ofNat m.txQueues.total := by
  rw [inv.posted calm, inv.sent, ← inv.total, UInt32.ofNat_add, UInt32.add_comm, UInt32.add_sub_cancel]

/-- A call of `emplacePacket` that has put its packet into a queue is about to count it. -/
theorem Emplaced.posts_signalling {m m' : PacketMuxer} {t : MuxerThread} {alloc : Bool} {pc pc' : PostPc}
    {name : String} {packet : SharedPacket} (step : Emplaced m t alloc pc pc' m')
    (log : m'.log = m.log ++ [.posted name packet]) : pc' = .signalling := by
  cases step with
  | emplaced => rfl
  | signalled => simp [signalPacketPosted] at log
  | locked | threw | unlocked => simp at log

/-- A call of `emplacePacket` that counts its packet wakes a send thread that waits. -/
theorem Emplaced.waiting {m m' : PacketMuxer} {t : MuxerThread} {alloc : Bool} {pc pc' : PostPc}
    (step : Emplaced m t alloc pc pc' m') (waiting : m'.send = .waiting false) :
    m.send = .waiting false ∧ m'.numPosted = m.numPosted ∧ m'.numSent = m.numSent := by
  cases step with
  | signalled => exact absurd waiting (notify_heard _)
  | locked | threw | emplaced | unlocked => exact ⟨waiting, rfl, rfl⟩

/-- A send thread that waits and was not notified has found the counters equal, and they still are. -/
theorem Effect.waiting {ids : IdManager} {m m' : PacketMuxer} {action : MuxerAction}
    (inv : m.send = .waiting false → m.numPosted = m.numSent) (effect : Effect ids m action m')
    (waiting : m'.send = .waiting false) : m'.numPosted = m'.numSent := by
  cases effect with
  | threw => exact inv waiting
  | called | destroy | destroyLocked | destroyUnlocked | destroyJoined => exact inv waiting
  | user step =>
    obtain ⟨before, numPosted, numSent⟩ := step.waiting waiting
    exact (numPosted.trans (inv before)).trans numSent.symm
  | waits _ equal => exact equal
  | destroyStored =>
    exact absurd waiting (notify_heard _)
  | _ => cases waiting

theorem reach_waiting {ids : IdManager} {C : PacketMuxer → MuxerAction → Prop} {m : PacketMuxer}
    (reach : (system ids).ReachUnder C m) : m.send = .waiting false → m.numPosted = m.numSent := by
  refine reach.invariant (I := fun m => m.send = .waiting false → m.numPosted = m.numSent) nofun ?_
  exact fun _ inv _ run => (step_effect run).waiting inv

/-- Only equal counters lead into `wait_for`. -/
theorem Effect.enters {ids : IdManager} {m m' : PacketMuxer} {action : MuxerAction} {n : Bool}
    (effect : Effect ids m action m') (before : ∀ n, m.send ≠ .waiting n) (after : m'.send = .waiting n) :
    m.send = .compare ∧ m.numPosted = m.numSent := by
  cases effect with
  | waits at_pc equal => exact ⟨at_pc, equal⟩
  | user step =>
    obtain ⟨k, waiting⟩ := step.send.waits after
    exact absurd waiting (before k)
  | destroyStored =>
    obtain ⟨k, waiting⟩ := m.stored_send.waits after
    exact absurd waiting (before k)
  | threw | called | destroy | destroyLocked | destroyUnlocked | destroyJoined => exact absurd after (before n)
  | _ => cases after

/-- Without a queued packet the counters are equal. -/
theorem CountInv.equal {m : PacketMuxer} (inv : CountInv m) (calm : ¬ m.Signals) (empty : m.txQueues.total = 0) :
    m.numPosted = m.numSent := by
  have balance := inv.balance calm
  rw [empty, UInt32.sub_eq_iff_eq_add] at balance
  simpa using balance

/-- Fewer than `2 ^ 32` queued packets are none if the counters are equal. -/
theorem CountInv.empty {m : PacketMuxer} (inv : CountInv m) (calm : ¬ m.Signals) (equal : m.numPosted = m.numSent)
    (few : m.txQueues.total < 2 ^ 32) : m.txQueues.total = 0 := by
  have balance := inv.balance calm
  rw [equal, UInt32.sub_self] at balance
  have zero := (UInt32.ofNat_eq_iff_mod_eq_toNat _ _).mp balance.symm
  rwa [Nat.mod_eq_of_lt few] at zero

/-- The counters are accurate wherever the send thread compares them or no thread holds the lock, so
the send thread goes to sleep on empty queues only, and whoever posts to it then wakes it. -/
theorem counter_accounting (ids : IdManager) (m : PacketMuxer) (reach : (system ids).Reach m) :
    (m.send = .test ∨ m.txLock = .free → m.numPosted - m.numSent = UInt32.ofNat m.txQueues.total) ∧
    (∀ action m' n, step ids m action = some m' → (∀ n, m.send ≠ .waiting n) → m'.send = .waiting n →
      m.txQueues.total < 2 ^ 32 → ∀ type, m.txQueues.get type = []) ∧
    (∀ i alloc m' name packet, step ids m (.user i alloc) = some m' → m'.log = m.log ++ [.posted name packet] →
      m'.users i = .signalling) ∧
    (∀ i alloc m' n, m.users i = .signalling → m.send = .waiting n → step ids m (.user i alloc) = some m' →
      m'.send = .waiting true) ∧
    (m.send = .waiting false → m.txQueues.total < 2 ^ 32 → (∃ type, m.txQueues.get type ≠ []) →
      ∃ i, m.users i = .signalling) := by
  have lock := reach_lockInv reach
  have inv := reach_countInv reach
  refine ⟨?_, ?_, ?_, ?_, ?_⟩
  · rintro (at_pc | free)
    · exact inv.balance (lock.calm_of_send at_pc Nat.one_pos rfl)
    · exact inv.balance (lock.calm_of_free free)
  · intro action m' n run before after few
    obtain ⟨at_pc, equal⟩ := (step_effect run).enters before after
    exact KeyedLists.get_eq_nil_of_total (inv.empty (lock.calm_of_send at_pc Nat.one_pos rfl) equal few)
  · intro i alloc m' name packet run log
    have effect := step_effect run
    cases effect with
    | user step =>
      have moved := step.posts_signalling log
      simpa using moved
  · intro i alloc m' n at_pc waiting run
    have effect := step_effect run
    cases effect with
    | user step =>
      rw [at_pc] at step
      cases step with
      | signalled => simp [signalPacketPosted, notify, waiting]
  · rintro waiting few ⟨type, queued⟩
    by_contra none
    have calm : ¬ m.Signals := by
      rintro ⟨t, signals⟩
      cases t with
      | send => simp [PacketMuxer.signals, waiting, SendPc.signals] at signals
      | user i => exact none ⟨i, PostPc.signals_iff.mp signals⟩
      | destructor => cases signals
    exact queued (KeyedLists.get_eq_nil_of_total (inv.empty calm (reach_waiting reach waiting) few) type)

/-- The send thread has sent the Hello packet and sleeps; a packet has been put into its queue and
is about to be counted. -/
def postedAsleep : List MuxerAction :=
  List.replicate 9 .send ++ [.iterate [1], .send] ++
  [.send, .write (.count 4), .send, .write (.count 4), .send, .write (.count 1), .send, .send, .send, .send] ++
  List.replicate 4 .send ++ [.post 0 "A" (.moved [7]), .user 0 true, .user 0 true]

theorem counter_accounting_asleep : ∃ (ids : IdManager) (m : PacketMuxer), IdManager.ofList ["A"] = some ids ∧
    (m.numPosted, m.numSent, m.txQueues.total) = (1, 1, 1) ∧
    (m.send = .test ∨ m.txLock = .free → m.numPosted - m.numSent = UInt32.ofNat m.txQueues.total) ∧
    (∀ action m' n, step ids m action = some m' → (∀ n, m.send ≠ .waiting n) → m'.send = .waiting n →
      m.txQueues.total < 2 ^ 32 → ∀ type, m.txQueues.get type = []) ∧
    (∀ i alloc m' name packet, step ids m (.user i alloc) = some m' → m'.log = m.log ++ [.posted name packet] →
      m'.users i = .signalling) ∧
    (∀ i alloc m' n, m.users i = .signalling → m.send = .waiting n → step ids m (.user i alloc) = some m' →
      m'.send = .waiting true) ∧
    (m.send = .waiting false → m.txQueues.total < 2 ^ 32 → (∃ type, m.txQueues.get type ≠ []) →
      ∃ i, m.users i = .signalling) := by
  obtain ⟨ids, built, m, reach, counts⟩ : ∃ ids, IdManager.ofList ["A"] = some ids ∧
      ∃ m, (system ids).Reach m ∧ (m.numPosted, m.numSent, m.txQueues.total) = (1, 1, 1) :=
    ⟨_, rfl, TransitionSystem.ReachUnder.start.computed
      (fun m : PacketMuxer => (m.numPosted, m.numSent, m.txQueues.total)) postedAsleep (fun _ _ _ => trivial)
      (by decide +kernel)⟩
  exact ⟨ids, m, built, counts, counter_accounting ids m reach⟩

end PacketMuxer

end PacketComms
