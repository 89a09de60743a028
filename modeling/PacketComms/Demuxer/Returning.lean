import PacketComms.Demuxer.Fairness
import PacketComms.Demuxer.Reentry

namespace PacketComms

/-- How far the receive thread is from the end of the dispatch. -/
def DispatchPc.rank : DispatchPc → Nat
  | .outside | .relocking .. => 0
  | .loop queue index => 2 * (queue.length - index) + 1
  | .callback queue index => 2 * (queue.length - index)

/-- The dispatch is at a subscriber of its list, or behind the last one. -/
def DispatchPc.Bounded : DispatchPc → Prop
  | .loop queue index => index ≤ queue.length
  | .callback queue index => index < queue.length
  | _ => True

namespace LockedDemuxer

open TransitionSystem (Execution)

/-- The receive thread takes a step of the dispatch. To leave a callback is one of them: the callbacks return. -/
def DispatchStep (_ : LockedDemuxer) : LockedAction → Prop
  | .lock | .invoke | .returns | .unlock => True
  | _ => False

/-- No callback has asked for the lock so far. -/
def Going (ids : IdManager) (l : LockedDemuxer) : Prop :=
  l.dispatch.Bounded ∧ ∃ d, (PacketDemuxer.system ids).Reach d ∧ Refines l d

/-- The receive thread asks for the lock that it holds. -/
def Stuck (l : LockedDemuxer) : Prop := l.relocks = true ∧ l.subscriberLock = .held .receive

/-- Within the dispatch of a packet. -/
def Inside (packet : ComPacket) (l : LockedDemuxer) : Prop :=
  0 < l.dispatch.rank ∧ l.demuxer.receive = .dispatch packet

/-- The packet has just been dispatched, unless a callback asks for the lock. -/
def Done (packet : ComPacket) (l : LockedDemuxer) : Prop :=
  l.relocks = true ∨ l.subscriberLock = .free ∧ l.demuxer.receive = .loop ∧
    ∃ addr calls, l.demuxer.log.getLast? = some (.dispatched ⟨addr, packet⟩ calls)

section Steps

variable {ids : IdManager} {l l' : LockedDemuxer} {action : LockedAction} {packet : ComPacket}

theorem Refines.not_relocks {d : PacketDemuxer} (related : Refines l d) : l.relocks = false := by
  unfold LockedDemuxer.relocks
  cases at_pc : l.dispatch with
  | relocking =>
    rw [Refines, at_pc] at related
    exact related.elim
  | _ => rfl

theorem Refines.free {d : PacketDemuxer} (related : Refines l d) (free : l.subscriberLock = .free) : l.demuxer = d := by
  by_cases outside : l.dispatch = .outside
  · rw [Refines, outside] at related
    exact related.2
  · obtain ⟨held, -⟩ := related.inside outside
    rw [held] at free
    cases free

theorem outerStep_kept {action : DemuxerAction} (run : l.outerStep ids action = some l') :
    l'.dispatch = l.dispatch ∧ l'.subscriberLock = l.subscriberLock := by
  obtain ⟨d, -, rfl⟩ := Option.map_eq_some_iff.mp run
  exact ⟨rfl, rfl⟩

theorem outerStep_receive {action : DemuxerAction} (run : l.outerStep ids action = some l') (other : action ≠ .receive)
    (at_pc : l.demuxer.receive = .dispatch packet) : l'.demuxer.receive = .dispatch packet := by
  obtain ⟨d, step, rfl⟩ := Option.map_eq_some_iff.mp run
  have effect := PacketDemuxer.step_effect step
  by_cases receives : PacketDemuxer.ReceiveThread l.demuxer action
  · cases effect with
    | readied at_pc' | timedOut at_pc' | failed at_pc' | got at_pc' =>
      rw [at_pc] at at_pc'
      cases at_pc'
    | subscribed | destructed | unknown | arrived | constructed | moveConstructed | moveAssigned | destructedNull
    | destroys | warned | joined => cases receives
    | _ => exact absurd rfl other
  · exact (effect.stands receives).1.trans at_pc

theorem invoke_inside {queue : List SubscriberPtr} {index : Nat} (run : step ids l .invoke = some l')
    (at_pc : l.dispatch = .loop queue index) : index ≠ queue.length := by
  intro last
  unfold step at run
  cases receiving : l.demuxer.receive with
  | dispatch packet =>
    rw [receiving, at_pc] at run
    exact absurd ((if_pos last).symm.trans run) (by simp)
  | _ =>
    rw [receiving, at_pc] at run
    cases run

theorem step_bounded (run : step ids l action = some l') (bounded : l.dispatch.Bounded) : l'.dispatch.Bounded := by
  cases step_effect run with
  | outer _ _ outer =>
    rw [(outerStep_kept outer).1]
    exact bounded
  | locked => exact Nat.zero_le _
  | invoked at_pc =>
    have inside := invoke_inside run at_pc
    simp only [DispatchPc.Bounded, at_pc] at bounded ⊢
    omega
  | called at_pc moved =>
    rcases callbackStep_cases moved with ⟨-, -, -, outer⟩ | ⟨-, d, rfl⟩
    · rw [(outerStep_kept outer).1]
      exact bounded
    · trivial
  | returned at_pc =>
    simp only [DispatchPc.Bounded, at_pc] at bounded ⊢
    omega
  | unlocked => trivial

theorem step_going (run : step ids l action = some l') (going : Going ids l) : Going ids l' ∨ Stuck l' := by
  obtain ⟨bounded, d, reach, related⟩ := going
  suffices next : (∃ d', (PacketDemuxer.system ids).Reach d' ∧ Refines l' d') ∨ Stuck l' by
    exact next.imp_left (fun related => ⟨step_bounded run bounded, related⟩)
  have goes (next : Refines l' d ∨ ∃ a d', PacketDemuxer.step ids d a = some d' ∧ Refines l' d') :
      ∃ d', (PacketDemuxer.system ids).Reach d' ∧ Refines l' d' := by
    rcases next with same | ⟨a, d', moved, related'⟩
    · exact ⟨d, reach, same⟩
    · exact ⟨d', reach.next trivial moved, related'⟩
  have effect : Effect ids l action l' := step_effect run
  cases action with
  | outer | lock | invoke | returns | unlock => exact Or.inl (goes (effect.refines related (by trivial)))
  | callback action =>
    cases effect with
    | called at_pc moved =>
      have within : l.dispatch ≠ .outside := by rw [at_pc]; simp
      obtain ⟨held, -⟩ := related.inside within
      rcases callbackStep_cases moved with ⟨other, -, free, outer⟩ | ⟨-, d', rfl⟩
      · have lockless : l.demuxer.takesLock ids action = false := by
          rw [← Bool.not_eq_true]
          intro takes
          rw [free takes] at held
          cases held
        exact Or.inl (goes (Or.inr ⟨action, related.inner within other lockless outer⟩))
      · exact Or.inr ⟨rfl, held⟩

/-- From there is no way out. -/
theorem step_stuck (run : step ids l action = some l') (stuck : Stuck l) : Stuck l' := by
  obtain ⟨relocks, held⟩ := stuck
  cases step_effect run with
  | outer _ _ outer =>
    obtain ⟨dispatch, lock⟩ := outerStep_kept outer
    exact ⟨by rw [LockedDemuxer.relocks, dispatch]; exact relocks, lock.trans held⟩
  | locked _ elsewhere | invoked elsewhere | called elsewhere | returned elsewhere | unlocked _ elsewhere =>
    simp [LockedDemuxer.relocks, elsewhere] at relocks

theorem reach_going {C : LockedDemuxer → LockedAction → Prop} (reach : (system ids).ReachUnder C l) :
    Going ids l ∨ Stuck l := by
  refine reach.invariant (I := fun l => Going ids l ∨ Stuck l) (Or.inl ⟨trivial, _, .start, rfl, rfl⟩) ?_
  rintro l a l' - (going | stuck) - run
  · exact step_going run going
  · exact Or.inr (step_stuck run stuck)

theorem reach_quiet {C : LockedDemuxer → LockedAction → Prop} (reach : (system ids).ReachUnder C l)
    (quiet : l.relocks = false) : Going ids l := by
  refine (reach_going reach).resolve_right (fun stuck => ?_)
  cases quiet.symm.trans stuck.1

theorem step_invoke {queue : List SubscriberPtr} {index : Nat} {s : PacketSubscriber}
    (receiving : l.demuxer.receive = .dispatch packet) (at_pc : l.dispatch = .loop queue index)
    (more : index ≠ queue.length) (entry : (l.demuxer.subscribers.get packet.type)[index]? = some (some s)) :
    step ids l .invoke = some { l with dispatch := .callback queue index } := by
  unfold step
  rw [receiving, at_pc]
  exact (if_neg more).trans (by rw [entry])

theorem step_returns {queue : List SubscriberPtr} {index : Nat} (at_pc : l.dispatch = .callback queue index) :
    step ids l .returns = some { l with dispatch := .loop queue (index + 1) } := by
  unfold step
  rw [at_pc]

theorem step_unlock {queue : List SubscriberPtr} {index : Nat} (receiving : l.demuxer.receive = .dispatch packet)
    (at_pc : l.dispatch = .loop queue index) (last : index = queue.length)
    (held : l.subscriberLock = .held .receive) : ∃ l', step ids l .unlock = some l' := by
  unfold step
  rw [receiving, at_pc, held]
  exact ⟨_, if_pos last⟩

/-- Within the dispatch the receive thread can go on: the list is as it was, and no entry of it is null. -/
theorem Going.enabled {names : List String} (built : IdManager.ofList names = some ids) (going : Going ids l)
    (inside : Inside packet l) : ∃ a l', DispatchStep l a ∧ step ids l a = some l' := by
  obtain ⟨bounded, d, reach, related⟩ := going
  have within : l.dispatch ≠ .outside := fun outside => by simp [Inside, outside, DispatchPc.rank] at inside
  obtain ⟨held, queue, index, packet', at_pc, dispatching, user, list, same⟩ := related.inside within
  have receiving : l.demuxer.receive = .dispatch packet' := by rw [same]; exact dispatching
  have registered : l.demuxer.subscribers.get packet'.type = queue := by
    rw [same, ← list]
    exact KeyedLists.get_touch ..
  rcases at_pc with at_pc | at_pc
  · by_cases last : index = queue.length
    · exact ⟨.unlock, (step_unlock receiving at_pc last held).imp fun _ run => ⟨trivial, run⟩⟩
    · have more : index < queue.length := by
        rw [at_pc] at bounded
        exact lt_of_le_of_ne bounded last
      have whole : none ∉ queue := list ▸ (PacketDemuxer.reach_ownInv built reach).not_null packet'.type
      obtain ⟨s, there⟩ := Option.ne_none_iff_exists'.mp (fun null => whole (null ▸ List.getElem_mem more))
      have entry : queue[index]? = some (some s) := by rw [List.getElem?_eq_getElem more, there]
      exact ⟨.invoke, _, trivial, step_invoke receiving at_pc last (registered ▸ entry)⟩
  · exact ⟨.returns, _, trivial, step_returns at_pc⟩

theorem step_inside (run : step ids l action = some l') (going : Going ids l) (inside : Inside packet l) :
    Done packet l' ∨ Inside packet l' ∧ l'.dispatch.rank ≤ l.dispatch.rank ∧
      (DispatchStep l action → l'.dispatch.rank < l.dispatch.rank) := by
  have next := step_bounded run going.1
  obtain ⟨bounded, d, -, related⟩ := going
  obtain ⟨positive, receiving⟩ := inside
  have within : l.dispatch ≠ .outside := fun outside => by simp [outside, DispatchPc.rank] at positive
  obtain ⟨held, -, -, packet', -, dispatching, user, -, same⟩ := related.inside within
  have own : packet' = packet := by
    rw [same] at receiving
    cases dispatching.symm.trans receiving
    rfl
  subst own
  have effect : Effect ids l action l' := step_effect run
  cases effect with
  | @outer action l' control free outer =>
    have other : action ≠ .receive := fun receives => user (control receives packet' receiving)
    obtain ⟨dispatch, -⟩ := outerStep_kept outer
    exact Or.inr ⟨⟨dispatch ▸ positive, outerStep_receive outer other receiving⟩, dispatch ▸ le_rfl, False.elim⟩
  | locked _ outside => exact absurd outside within
  | invoked at_pc =>
    refine Or.inr ⟨⟨?_, receiving⟩, ?_⟩
    all_goals simp only [at_pc, DispatchPc.rank, DispatchPc.Bounded] at next ⊢
    · omega
    · exact ⟨Nat.le_succ _, fun _ => Nat.lt_succ_self _⟩
  | called at_pc moved =>
    rcases callbackStep_cases moved with ⟨other, -, -, outer⟩ | ⟨-, d, rfl⟩
    · obtain ⟨dispatch, -⟩ := outerStep_kept outer
      exact Or.inr ⟨⟨dispatch ▸ positive, outerStep_receive outer other receiving⟩, dispatch ▸ le_rfl, False.elim⟩
    · exact Or.inl (Or.inl rfl)
  | returned at_pc =>
    refine Or.inr ⟨⟨Nat.succ_pos _, receiving⟩, ?_⟩
    simp only [at_pc, DispatchPc.rank, DispatchPc.Bounded] at bounded ⊢
    omega
  | @unlocked packet queue index dispatching' =>
    cases dispatching'.symm.trans receiving
    refine Or.inl (Or.inr ⟨rfl, ?_⟩)
    simp [PacketDemuxer.dispatchStep, user]

end Steps

section Progress

variable {names : List String} {ids : IdManager} {packet : ComPacket} {C : LockedDemuxer → LockedAction → Prop}
  {e : (system ids).Execution C}

theorem inside_ends (packet : ComPacket) (built : IdManager.ofList names = some ids)
    (permits : ∀ l a, DispatchStep l a → C l a) (fair : e.Fair DispatchStep) :
    e.LeadsTo (fun l => Going ids l ∧ Inside packet l) (Done packet) := by
  have next {l : LockedDemuxer} {a : LockedAction} {l' : LockedDemuxer} (run : step ids l a = some l')
      (inside : Going ids l ∧ Inside packet l) : Done packet l' ∨ (Going ids l' ∧ Inside packet l') ∧
        l'.dispatch.rank ≤ l.dispatch.rank ∧ (DispatchStep l a → l'.dispatch.rank < l.dispatch.rank) := by
    rcases step_going run inside.1 with going | stuck
    · exact (step_inside run inside.1 inside.2).imp_right (fun next => ⟨⟨going, next.1⟩, next.2⟩)
    · exact Or.inl (Or.inl stuck.1)
  refine .descend_own fair (fun l => l.dispatch.rank) ?_ ?_ ?_
  · exact fun l a l' _ inside _ _ run => (next run inside).imp_right (fun next => ⟨next.1, next.2.1⟩)
  · exact fun l a l' _ inside _ own run => (next run inside).imp_right (fun next => ⟨next.1, next.2.2 own⟩)
  · intro n stays
    obtain ⟨⟨going, inside⟩, -⟩ := stays n le_rfl
    obtain ⟨a, l', own, run⟩ := going.enabled built inside
    exact ⟨n, le_rfl, a, l', permits _ _ own, own, run⟩

end Progress

/-- In every run with a fair scheduler whose callbacks return, the lock is given back again and again exactly if no
callback ever asks for it. -/
theorem lock_given_back (names : List String) (ids : IdManager) (built : IdManager.ofList names = some ids)
    (e : (system ids).Execution fun _ _ => True) (fair : e.Fair DispatchStep) :
    (∀ n, ∃ m, n ≤ m ∧ (e.state m).subscriberLock = .free) ↔ ∀ n, (e.state n).relocks = false := by
  constructor
  · intro often n
    rcases reach_going (e.reach n) with ⟨-, d, -, related⟩ | stuck
    · exact related.not_relocks
    · obtain ⟨m, later, free⟩ := often n
      have held := (Execution.lasts (P := Stuck) (fun _ _ _ _ stuck _ run => step_stuck run stuck) stuck later).2
      rw [free] at held
      cases held
  · intro never n
    obtain ⟨bounded, d, reach, related⟩ := reach_quiet (e.reach n) (never n)
    by_cases outside : (e.state n).dispatch = .outside
    · rw [Refines, outside] at related
      exact ⟨n, le_rfl, related.1⟩
    · obtain ⟨-, queue, index, packet, at_pc, dispatching, -, -, same⟩ := related.inside outside
      have inside : Inside packet (e.state n) := by
        refine ⟨?_, by rw [same]; exact dispatching⟩
        rcases at_pc with at_pc | at_pc <;> simp only [at_pc, DispatchPc.Bounded] at bounded <;>
          simp only [at_pc, DispatchPc.rank] <;> omega
      obtain ⟨m, later, asks | ⟨free, -⟩⟩ :=
        inside_ends packet built (fun _ _ _ => trivial) fair n ⟨⟨bounded, d, reach, related⟩, inside⟩
      · cases (never m).symm.trans asks
      · exact ⟨m, later, free⟩

/-- The callback moves its handle and returns. -/
def movesHandle : List LockedAction := callsSubscriber ++ [.callback (.moveConstruct 1 0), .returns, .unlock]

theorem movesHandle_returns : ∃ ids, IdManager.ofList ["A"] = some ids ∧
    ∀ C : LockedDemuxer → LockedAction → Prop, (∀ l a, a.quiet = true → C l a) →
      ∃ e : (system ids).Execution C, e.Fair DispatchStep ∧ ∃ n, (e.state n).demuxer.receive = .dispatch ⟨2, [7]⟩ := by
  obtain ⟨ids, l, built, run, loop, outside, there⟩ : ∃ ids l, IdManager.ofList ["A"] = some ids ∧
      (system ids).run (system ids).start movesHandle = some l ∧ l.demuxer.receive = .loop ∧ l.dispatch = .outside ∧
      ((system ids).run (system ids).start (movesHandle.take (callsSubscriber.length - 2))).map (·.demuxer.receive) =
        some (.dispatch ⟨2, [7]⟩) := ⟨_, _, rfl, rfl, rfl, rfl, rfl⟩
  refine ⟨ids, built, fun C quiet => ?_⟩
  have all : movesHandle.all LockedAction.quiet = true := by decide
  have met : Execution.Meets (system ids) C (system ids).start movesHandle :=
    .of_forall (fun a member l => quiet l a (List.all_eq_true.mp all a member)) _
  refine ⟨.ofRun (system ids) movesHandle met run, Execution.fair_ofRun ?_, callsSubscriber.length - 2, ?_⟩
  · rintro ⟨a, l', -, own, moved⟩
    have effect : Effect ids l a l' := step_effect moved
    cases effect with
    | outer | called => exact own
    | locked dispatching =>
      rw [loop] at dispatching
      cases dispatching
    | invoked at_pc | returned at_pc | unlocked _ at_pc =>
      rw [outside] at at_pc
      cases at_pc
  · obtain ⟨l', before, receive⟩ := Option.map_eq_some_iff.mp there
    simp only [Execution.ofRun, Execution.stateAfter, before, Option.getD_some, receive]

theorem lock_given_back_moved : ∃ (ids : IdManager) (e : (system ids).Execution fun _ _ => True),
    IdManager.ofList ["A"] = some ids ∧ e.Fair DispatchStep ∧
    ((∀ n, ∃ m, n ≤ m ∧ (e.state m).subscriberLock = .free) ↔ ∀ n, (e.state n).relocks = false) := by
  obtain ⟨ids, built, runs⟩ := movesHandle_returns
  obtain ⟨e, fair, -⟩ := runs _ (fun _ _ _ => trivial)
  exact ⟨ids, e, built, fair, lock_given_back ["A"] ids built e fair⟩

end LockedDemuxer

end PacketComms
