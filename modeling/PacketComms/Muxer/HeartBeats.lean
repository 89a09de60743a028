import PacketComms.Lib.Possibility
import PacketComms.Muxer.Liveness
import PacketComms.Muxer.Wire

namespace PacketComms

/-- On the way from a timeout to the next byte on the wire. -/
def SendPc.Fresh (total : Nat) : SendPc → Prop
  | .relock timeout => timeout = true
  | .heartBeat _ => True
  | .scan | .visit _ | .drain .. => total ≠ 0
  | .write _ _ fields ok => ok = false ∨ fields.flatten ≠ []
  | .assign _ _ ok => ok = false
  | _ => False

namespace PacketMuxer

/-- A wait ends because the time is up. -/
def Timeout (_ : PacketMuxer) : MuxerAction → Prop
  | .wake timeout => timeout = true
  | _ => False

def Fresh (m : PacketMuxer) : Prop := m.send.Fresh m.txQueues.total

/-- From a timeout on, as long as nothing has been written, the next step writes, sets the flag or goes on. -/
theorem Effect.fresh {ids : IdManager} {m m' : PacketMuxer} {action : MuxerAction} (reach : (system ids).Reach m)
    (fresh : m.Fresh) (flag : m.transportError = false) (effect : Effect ids m action m')
    (alive : ∀ type, m'.send ≠ .aborted type) :
    m'.transportError = true ∨ m.wire.length < m'.wire.length ∨ m'.Fresh ∧ m'.wire = m.wire := by
  cases effect with
  | threw | called | destroy | destroyLocked | destroyUnlocked | destroyJoined => exact Or.inr (Or.inr ⟨fresh, rfl⟩)
  | @user i alloc pc next step =>
    have wire : next.wire = m.wire := step.sending_side.2.2.2.2.1
    refine Or.inr (Or.inr ⟨?_, wire⟩)
    have awake : next.send = m.send := by
      rcases step.send with same | ⟨n, waiting, -⟩
      · exact same
      · rw [Fresh, waiting] at fresh
        cases fresh
    rcases Nat.eq_zero_or_pos m.send.holds with outside | inside
    · unfold Fresh at fresh ⊢
      rw [awake]
      cases at_pc : m.send <;> simp_all [SendPc.Fresh, SendPc.holds]
    · have free : (m.users i).holds = 0 := (reach_lockInv reach).exclusive (t := .send) (u := .user i) inside (by simp)
      have queues : next.txQueues = m.txQueues := step.outside free
      unfold Fresh at fresh ⊢
      rw [awake, queues]
      exact fresh
  | destroyStored => exact Or.inl (by simp)
  | heartBeat at_pc step => exact Or.inr (Or.inr ⟨trivial, step.sending_side.2.2.2.2.1⟩)
  | timedOut => exact Or.inr (Or.inr ⟨trivial, rfl⟩)
  | beaten at_pc =>
    have queued := reach_beats reach at_pc rfl
    exact Or.inr (Or.inr ⟨queued, rfl⟩)
  | iterates at_pc | visits at_pc | drained at_pc =>
    rw [Fresh, at_pc] at fresh
    exact Or.inr (Or.inr ⟨fresh, rfl⟩)
  | passed at_pc =>
    have settled := settled_of_passed reach at_pc
    rw [Fresh, at_pc] at fresh
    exact absurd (by simpa [settled, flag, PacketMuxer.settled] using settled) fresh
  | @handed type types packet =>
    exact Or.inr (Or.inr ⟨Or.inr (by simp [ComPacket.fields, htonl]), rfl⟩)
  | skipped at_pc | finished at_pc =>
    rw [Fresh, at_pc] at fresh
    exact Or.inr (Or.inr ⟨by simpa [Fresh, SendPc.Fresh] using fresh, rfl⟩)
  | failed at_pc => exact Or.inr (Or.inr ⟨Or.inl rfl, rfl⟩)
  | @accepted type types buffer fields ok n at_pc more =>
    rw [Fresh, at_pc] at fresh
    rcases Nat.eq_zero_or_pos n with rfl | some
    · exact Or.inr (Or.inr ⟨by simpa [Fresh, SendPc.Fresh] using fresh, by simp⟩)
    · have bytes := List.length_pos_of_ne_nil more
      refine Or.inr (Or.inl ?_)
      rw [List.length_append, List.length_take]
      omega
  | interrupted at_pc _ set =>
    rw [flag] at set
    cases set
  | assigned at_pc =>
    rw [Fresh, at_pc] at fresh
    exact Or.inl (by simpa [SendPc.Fresh] using fresh)
  | entered at_pc | hello at_pc | greeted at_pc | locked at_pc | continues at_pc | stops at_pc | waits at_pc
  | busy at_pc
  | woken at_pc | relocked at_pc | popped at_pc | unlocked at_pc =>
    rw [Fresh, at_pc] at fresh
    cases fresh
  | @asserted type => exact absurd rfl (alive type)

section Runs

variable {names : List String} {ids : IdManager} {allowed : String → PacketArgs → Prop}
  {C : PacketMuxer → MuxerAction → Prop} {e : (system ids).Execution C}

/-- A wait ends because the time is up. -/
theorem times_out (proper : Proper ids allowed C) (built : IdManager.ofList names = some ids) (fair : FairThreads e)
    (timeouts : e.Fair Timeout) : e.LeadsTo (fun m => m.transportError = false)
      (fun m => m.send = .relock true ∨ m.transportError = true) := by
  refine .once timeouts ?_ ?_ ?_
  · intro m a m' reach flag met run
    cases set : m'.transportError with
    | true => exact Or.inl (Or.inr rfl)
    | false => exact Or.inr rfl
  · intro m a m' reach flag met own run
    cases step_effect run with
    | woken =>
      obtain rfl := own
      exact Or.inl rfl
    | _ => cases own
  · intro n stays
    obtain ⟨m, later, ⟨waiting, -⟩ | set⟩ := comes_to_rest proper built fair n (stays n (Nat.le_refl n)).1
    · have woken : Effect ids (e.state m) (.wake true) { e.state m with send := .relock true } := .woken waiting
      exact ⟨m, later, woken.enabled proper (by simp [waiting]) trivial rfl⟩
    · exact absurd (Or.inr set) (stays m later).2

/-- Behind a timeout a byte is written, or the flag is set. -/
theorem fresh_writes (proper : Proper ids allowed C) (built : IdManager.ofList names = some ids) (fair : FairThreads e)
    (k : Nat) : e.LeadsTo (fun m => m.Fresh ∧ m.transportError = false ∧ m.wire.length = k)
      (fun m => m.transportError = true ∨ k < m.wire.length) := by
  have goes {m m' : PacketMuxer} {a : MuxerAction} (reach : (system ids).ReachUnder C m)
      (now : m.Fresh ∧ m.transportError = false ∧ m.wire.length = k) (met : C m a)
      (run : (system ids).step m a = some m') : (m'.transportError = true ∨ k < m'.wire.length) ∨
        (m'.Fresh ∧ m'.transportError = false ∧ m'.wire.length = k) := by
    obtain ⟨fresh, flag, rfl⟩ := now
    have alive := proper.alive built (reach.next met run)
    rcases (step_effect run).fresh reach.forget fresh flag alive with set | grown | ⟨still, wire⟩
    · exact Or.inl (Or.inl set)
    · exact Or.inl (Or.inr grown)
    · cases set : m'.transportError with
      | true => exact Or.inl (Or.inl rfl)
      | false => exact Or.inr ⟨still, rfl, congrArg List.length wire⟩
  have nearer {m m' : PacketMuxer} {a : MuxerAction} (reach : (system ids).ReachUnder C m) (fresh : m.Fresh)
      (own : SendThread m a) (run : (system ids).step m a = some m') : m'.distance < m.distance := by
    refine ((step_effect run).nears reach.forget own).resolve_right (fun ⟨compares, _, _, _⟩ => ?_)
    rw [Fresh, compares] at fresh
    cases fresh
  refine .descend_own fair.send distance ?_ ?_ ?_
  · intro m a m' reach now met other run
    refine (goes reach now met run).imp id (fun still => ⟨still, ?_⟩)
    exact ((step_effect run).distance_stands (reach_lockInv reach) (reach_writeInv reach) other).le
  · intro m a m' reach now met own run
    exact (goes reach now met run).imp id (fun still => ⟨still, nearer reach now.1 own run⟩)
  · intro n stays
    obtain ⟨m, later, free⟩ := lock_freed proper built fair n trivial
    refine ⟨m, later, proper.enabled_send built (e.reach m) (fun exited => ?_) (fun t _ => by rw [free]; rfl)⟩
    exact (stays m later).2 (Or.inl (reach_leaving (e.reach m).forget (Or.inr exited)))

theorem wire_kept (e : (system ids).Execution C) {n m : Nat} (later : n ≤ m) :
    (e.state n).wire <+: (e.state m).wire := by
  refine TransitionSystem.Execution.lasts (P := fun s : PacketMuxer => (e.state n).wire <+: s.wire) ?_
    List.prefix_rfl later
  exact fun m a m' _ before _ run => before.trans (step_effect run).wire_grows

/-- Sooner or later the next byte is written. -/
theorem written_again (proper : Proper ids allowed C) (built : IdManager.ofList names = some ids) (fair : FairThreads e)
    (timeouts : e.Fair Timeout) {n k : Nat} (long : k ≤ (e.state n).wire.length) :
    ∃ m, n ≤ m ∧ ((e.state m).transportError = true ∨ k < (e.state m).wire.length) := by
  cases flag : (e.state n).transportError with
  | true => exact ⟨n, Nat.le_refl n, Or.inl flag⟩
  | false =>
    obtain ⟨m, later, relock | set⟩ := times_out proper built fair timeouts n flag
    · have grown := (wire_kept e later).length_le
      cases flag : (e.state m).transportError with
      | true => exact ⟨m, later, Or.inl flag⟩
      | false =>
        have fresh : (e.state m).Fresh := by simp [Fresh, relock, SendPc.Fresh]
        obtain ⟨l, last, goal⟩ := fresh_writes proper built fair _ m ⟨fresh, flag, rfl⟩
        exact ⟨l, by omega, goal.imp id (fun more => by omega)⟩
    · exact ⟨m, later, Or.inl set⟩

/-- The muxer never falls silent. Even if nothing is posted, the heart beats make the wire grow beyond every bound, or a
transport that takes nothing any more is noticed. -/
theorem never_silent (names : List String) (ids : IdManager) (built : IdManager.ofList names = some ids)
    (allowed : String → PacketArgs → Prop) (C : PacketMuxer → MuxerAction → Prop) (proper : Proper ids allowed C)
    (e : (system ids).Execution C) (fair : FairThreads e) (timeouts : e.Fair Timeout) (n k : Nat) :
    ∃ m, n ≤ m ∧ ((e.state m).transportError = true ∨ k ≤ (e.state m).wire.length) := by
  induction k with
  | zero => exact ⟨n, Nat.le_refl n, Or.inr (Nat.zero_le _)⟩
  | succ k ih =>
    obtain ⟨m, later, set | long⟩ := ih
    · exact ⟨m, later, Or.inl set⟩
    · obtain ⟨l, last, goal⟩ := written_again proper built fair timeouts long
      exact ⟨l, Nat.le_trans later last, goal⟩

end Runs

section Beating

variable {ids : IdManager} {m m' : PacketMuxer} {action : MuxerAction}

/-- Nobody destroys the muxer, and no write fails. -/
def Untroubled (m : PacketMuxer) (action : MuxerAction) : Prop :=
  Posts (fun name _ => name ∈ ["A"]) m action ∧ NoWriteError m action ∧ action ≠ .destroy

theorem proper_untroubled (built : IdManager.ofList ["A"] = some ids) :
    Proper ids (fun name _ => name ∈ ["A"]) Untroubled := by
  refine ⟨(proper_named built (by decide)).sendable, fun _ _ met => met.1, ?_, fun _ => ⟨.count 1, by simp, ?_⟩⟩
  · intro m action internal
    cases action with
    | post | write | destroy => cases internal
    | _ => exact ⟨trivial, trivial, by simp⟩
  · exact ⟨trivial, trivial, by simp⟩

theorem reach_untroubled (reach : (system ids).ReachUnder Untroubled m) :
    m.destructor = .notCalled ∧ m.transportError = false := by
  have standing : m.destructor = .notCalled := by
    refine reach.invariant (I := fun m => m.destructor = .notCalled) rfl ?_
    intro m a m' _ before met run
    rcases (step_effect run).destructor_cases with same | ⟨rfl, -⟩ | ⟨-, called⟩
    · exact same.trans before
    · exact absurd rfl met.2.2
    · exact absurd before called
  refine ⟨standing, ?_⟩
  cases flag : m.transportError with
  | false => rfl
  | true => exact absurd standing ((reach_calmInv (fun _ _ met => met.2.1) reach).flag flag)

/-- The send thread has the muxer to itself. -/
structure Alone (ids : IdManager) (m : PacketMuxer) : Prop where
  reach : (system ids).ReachUnder Untroubled m
  users : ∀ i, m.users i = .idle

theorem Alone.next (alone : Alone ids m) (met : Untroubled m action) (own : SendThread m action)
    (run : (system ids).step m action = some m') : Alone ids m' := by
  refine ⟨alone.reach.next met run, ?_⟩
  rw [((step_effect run).leaves_others own).1]
  exact alone.users

/-- Until it waits it can go on, and each of its steps brings it nearer. -/
theorem Alone.goes_on (alone : Alone ids m) (built : IdManager.ofList ["A"] = some ids) :
    ∃ a m', Untroubled m a ∧ SendThread m a ∧ (system ids).step m a = some m' ∧
      (m'.send = .waiting false ∨ m'.distance < m.distance) := by
  obtain ⟨standing, calm⟩ := reach_untroubled alone.reach
  have working : m.send ≠ .exited := by
    intro exited
    rw [reach_leaving alone.reach.forget (Or.inr exited)] at calm
    cases calm
  have free (t : MuxerThread) (other : t ≠ .send) : m.txLock.heldBy t = 0 := by
    rw [reach_lockInv alone.reach t]
    cases t with
    | send => exact absurd rfl other
    | user i => simp [holds, alone.users i, PostPc.holds]
    | destructor => simp [holds, standing, DestructorPc.holds]
  obtain ⟨a, m', met, own, run⟩ := (proper_untroubled built).enabled_send built alone.reach working free
  refine ⟨a, m', met, own, run, ?_⟩
  rcases (step_effect run).nears alone.reach.forget own with nearer | ⟨-, -, -, waiting⟩
  · exact Or.inr nearer
  · exact Or.inl waiting

/-- Left to itself the send thread comes to wait. -/
theorem Alone.comes_to_wait (alone : Alone ids m) (built : IdManager.ofList ["A"] = some ids) :
    ∃ actions m', (∀ a ∈ actions, ∀ m, Untroubled m a ∧ SendThread m a) ∧ (system ids).run m actions = some m' ∧
      Alone ids m' ∧ m'.send = .waiting false := by
  refine (TransitionSystem.CanReach.of_rank (J := Alone ids) distance (fun m alone => ?_) alone).exists_run
  obtain ⟨a, m', met, own, run, waiting | nearer⟩ := alone.goes_on built
  · exact Or.inr ⟨a, m', fun _ => ⟨met, own⟩, run, Or.inl ⟨alone.next met own run, waiting⟩⟩
  · exact Or.inr ⟨a, m', fun _ => ⟨met, own⟩, run, Or.inr ⟨alone.next met own run, nearer⟩⟩

/-- A wait ends because the time is up, and the send thread comes to wait again. -/
theorem Alone.beats (alone : Alone ids m) (built : IdManager.ofList ["A"] = some ids)
    (waiting : m.send = .waiting false) :
    ∃ turn m', (.wake true ∈ turn ∧ ∀ a ∈ turn, ∀ m, Untroubled m a ∧ SendThread m a) ∧
      (system ids).run m turn = some m' ∧ Alone ids m' ∧ m'.send = .waiting false := by
  have wakes : (system ids).step m (.wake true) = some { m with send := .relock true } := by
    simp [system, step, waiting]
  have wake (m : PacketMuxer) : Untroubled m (.wake true) ∧ SendThread m (.wake true) :=
    ⟨⟨trivial, trivial, by simp⟩, trivial⟩
  obtain ⟨rest, m', met, run, again⟩ := (alone.next (wake m).1 (wake m).2 wakes).comes_to_wait built
  refine ⟨.wake true :: rest, m', ⟨List.mem_cons_self, List.forall_mem_cons.mpr ⟨wake, met⟩⟩, ?_, again⟩
  rw [TransitionSystem.run, wakes]
  exact run

theorem never_silent_beating : ∃ (ids : IdManager) (e : (system ids).Execution Untroubled),
    IdManager.ofList ["A"] = some ids ∧ (∀ n, (e.state n).transportError = false) ∧
    ∀ n k, ∃ m, n ≤ m ∧ ((e.state m).transportError = true ∨ k ≤ (e.state m).wire.length) := by
  obtain ⟨ids, built⟩ : ∃ ids, IdManager.ofList ["A"] = some ids := ⟨_, rfl⟩
  obtain ⟨first, m, met, run, alone, waiting⟩ :=
    (⟨.start, fun _ => rfl⟩ : Alone ids (system ids).start).comes_to_wait built
  have busy : 0 < first.length := by
    refine List.length_pos_of_ne_nil (fun none => ?_)
    subst none
    cases Option.some.inj run
    cases waiting
  have again (m : PacketMuxer) (now : Alone ids m ∧ m.send = .waiting false) : ∃ turn m', 0 < turn.length ∧
      (.wake true ∈ turn ∧ ∀ a ∈ turn, ∀ m, SendThread m a) ∧
      TransitionSystem.Execution.Meets (system ids) Untroubled m turn ∧ (system ids).run m turn = some m' ∧
      Alone ids m' ∧ m'.send = .waiting false := by
    obtain ⟨turn, m', ⟨wakes, met⟩, run, next⟩ := now.1.beats built now.2
    exact ⟨turn, m', List.length_pos_of_mem wakes, ⟨wakes, fun a member m => (met a member m).2⟩,
      .of_forall (fun a member m => (met a member m).1) m, run, next⟩
  obtain ⟨plan, turns⟩ := TransitionSystem.Execution.Turns.exists_turns busy
    (.of_forall (fun a member m => (met a member m).1) _) run ⟨alone, waiting⟩ again
  have fair : FairThreads plan.execution := by
    refine fair_turns plan (fun k => ?_) (fun k => (turns k).2.2)
    obtain ⟨alone, -⟩ := (turns k).1
    exact ⟨alone.users, (reach_untroubled alone.reach).1⟩
  have timeouts : plan.execution.Fair Timeout := plan.fair_of_taken (fun k => ⟨_, (turns k).2.1, fun _ => rfl⟩)
  exact ⟨ids, plan.execution, built, fun n => (reach_untroubled (plan.execution.reach n)).2,
    never_silent ["A"] ids built _ Untroubled (proper_untroubled built) plan.execution fair timeouts⟩

end Beating

/-- A socket of which every write fails. -/
def AlwaysFailSocket (_ : PacketMuxer) : MuxerAction → Prop
  | .write answer => answer = .error
  | _ => True

/-- Over such a socket a muxer that nobody uses notices it: waiting for `ok()` to return false comes to an end. -/
theorem always_fail_noticed {names : List String} {ids : IdManager} (built : IdManager.ofList names = some ids)
    (e : (system ids).Execution (fun m a => AlwaysFailSocket m a ∧ Posts (fun _ _ => False) m a)) (fair : FairThreads e)
    (timeouts : e.Fair Timeout) : ∃ m, (e.state m).transportError = true := by
  have proper : Proper ids (fun _ _ => False) (fun m a => AlwaysFailSocket m a ∧ Posts (fun _ _ => False) m a) := by
    refine ⟨fun _ _ _ none => none.elim, fun _ _ met => met.2, ?_, fun _ => ⟨.error, by simp, rfl, trivial⟩⟩
    intro m action internal
    cases action with
    | post | write => cases internal
    | _ => exact ⟨trivial, trivial⟩
  obtain ⟨m, -, set | written⟩ := written_again proper built fair timeouts (Nat.zero_le (e.state 0).wire.length)
  · exact ⟨m, set⟩
  · have empty : (e.state m).wire = [] := by
      refine (e.reach m).invariant (I := fun m => m.wire = []) rfl ?_
      intro m a m' _ none met run
      cases step_effect run with
      | user step | hello _ step | heartBeat _ step => exact step.sending_side.2.2.2.2.1.trans none
      | destroyStored => exact (notify_wire _).trans none
      | accepted | interrupted => cases met.1
      | _ => exact none
    rw [empty] at written
    cases written

end PacketMuxer

end PacketComms
