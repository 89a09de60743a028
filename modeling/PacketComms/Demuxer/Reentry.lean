import PacketComms.Demuxer.Callbacks

namespace PacketComms

namespace PacketDemuxer

/-- The demuxer with another registry. -/
def withSubscribers (d : PacketDemuxer) (subscribers : KeyedLists PacketType SubscriberPtr) : PacketDemuxer :=
  { d with subscribers := subscribers }

/-- While a packet is being dispatched, what the other threads do without the lock does not look at the registry. -/
theorem step_withSubscribers (ids : IdManager) {d : PacketDemuxer} {packet : ComPacket}
    (at_pc : d.receive = .dispatch packet)
    (subscribers : KeyedLists PacketType SubscriberPtr) {action : DemuxerAction} (other : action ≠ .receive)
    (lockless : d.takesLock ids action = false) :
    step ids (d.withSubscribers subscribers) action =
      (step ids d action).map (fun d' => d'.withSubscribers subscribers) := by
  cases action with
  | arrive | ready | read => simp [step, withSubscribers, at_pc]
  | receive => exact absurd rfl other
  | subscribe i name =>
    have unknown : ids.toId name = none := by simpa [takesLock] using lockless
    simp only [step, withSubscribers, at_pc, subscribe, unknown]
    split <;> simp_all
  | construct | moveConstruct | moveAssign =>
    simp only [step, withSubscribers, at_pc]
    split <;> simp_all
  | destruct i =>
    cases handle : d.handles i with
    | none => simp [step, withSubscribers, at_pc, destruct, handle]
    | some ptr =>
      cases ptr with
      | none => simp [step, withSubscribers, at_pc, destruct, handle]
      | some s =>
        have few : ¬ d.useCount s.addr > 1 := by simpa [takesLock, handle] using lockless
        simp [step, withSubscribers, at_pc, destruct, handle, few]
  | destroy =>
    simp only [takesLock] at lockless
    simp only [step, withSubscribers, at_pc, destroyStep]
    split <;> simp_all

/-- Such a step leaves the receive thread where it is, and the registry. -/
theorem Effect.lockless {ids : IdManager} {d d' : PacketDemuxer} {packet : ComPacket} {action : DemuxerAction}
    (at_pc : d.receive = .dispatch packet) (other : action ≠ .receive) (lockless : d.takesLock ids action = false)
    (effect : Effect ids d action d') : d'.receive = .dispatch packet ∧ d'.subscribers = d.subscribers := by
  cases effect with
  | subscribed _ _ issued => simp [takesLock, issued] at lockless
  | @destructed i s next handle same =>
    have few : ¬ d.useCount s.addr > 1 := by simpa [takesLock, handle] using lockless
    rw [if_neg few] at same
    subst same
    exact ⟨at_pc, rfl⟩
  | warned calling => simp [takesLock, calling] at lockless
  | joined _ exited =>
    rw [at_pc] at exited
    cases exited
  | arrived | unknown | constructed | moveConstructed | moveAssigned | destructedNull | destroys => exact ⟨at_pc, rfl⟩
  | readied at_pc' | timedOut at_pc' | failed at_pc' | got at_pc' =>
    rw [at_pc] at at_pc'
    cases at_pc'
  | _ => exact absurd rfl other

/-- To look the key up again changes nothing. -/
theorem dispatchStep_touch {d : PacketDemuxer} {packet : ComPacket} (user : packet.type ≠ IdManager.controlPacket) :
    (d.withSubscribers (d.subscribers.touch packet.type)).dispatchStep packet = d.dispatchStep packet := by
  have twice := KeyedLists.touch_of_mem (d.subscribers.mem_keys_touch packet.type)
  simp [dispatchStep, withSubscribers, user, twice]

end PacketDemuxer

/-- Actions that are permitted in every state. -/
def LockedAction.quiet : LockedAction → Bool
  | .callback (.subscribe ..) | .callback (.destruct _) | .callback .destroy => false
  | _ => true

namespace LockedDemuxer

open PacketDemuxer

/-- What a step does, case by case. -/
inductive Effect (ids : IdManager) (l : LockedDemuxer) : LockedAction → LockedDemuxer → Prop
  | outer {action l'} :
      (action = .receive → ∀ packet, l.demuxer.receive = .dispatch packet → packet.type = IdManager.controlPacket) →
      (l.demuxer.takesLock ids action = true → l.subscriberLock = .free) → l.outerStep ids action = some l' →
      Effect ids l (.outer action) l'
  | locked {packet} : l.demuxer.receive = .dispatch packet → l.dispatch = .outside →
      packet.type ≠ IdManager.controlPacket → l.subscriberLock = .free →
      Effect ids l .lock {
        demuxer := l.demuxer.withSubscribers (l.demuxer.subscribers.touch packet.type)
        subscriberLock := .held .receive
        dispatch := .loop (l.demuxer.subscribers.get packet.type) 0 }
  | invoked {queue index} : l.dispatch = .loop queue index →
      Effect ids l .invoke { l with dispatch := .callback queue index }
  | called {queue index action l'} : l.dispatch = .callback queue index →
      l.callbackStep ids queue index action = some l' → Effect ids l (.callback action) l'
  | returned {queue index} : l.dispatch = .callback queue index →
      Effect ids l .returns { l with dispatch := .loop queue (index + 1) }
  | unlocked {packet queue index} : l.demuxer.receive = .dispatch packet → l.dispatch = .loop queue index →
      l.subscriberLock = .held .receive →
      Effect ids l .unlock {
        demuxer := l.demuxer.dispatchStep packet, subscriberLock := .free, dispatch := .outside }

theorem step_effect {ids : IdManager} {l l' : LockedDemuxer} {action : LockedAction}
    (run : step ids l action = some l') : Effect ids l action l' := by
  unfold step at run
  split at run
  · rename_i packet dispatching
    split at run
    · rename_i control
      refine .outer (fun _ other same => ?_) nofun run
      cases dispatching.symm.trans same
      exact control
    · cases run
  · rename_i action elsewhere
    have received : action = .receive → ∀ packet, l.demuxer.receive = .dispatch packet →
        packet.type = IdManager.controlPacket := fun same packet at_pc => (elsewhere packet at_pc same).elim
    split at run
    · obtain ⟨m, acquired, outer⟩ := Option.bind_eq_some_iff.mp run
      exact .outer received (fun _ => (Mutex.acquire_eq_some acquired).1) outer
    · rename_i lockless
      exact .outer received (fun takes => absurd takes lockless) run
  · rename_i packet dispatching outside
    split at run
    · cases run
    · rename_i user
      obtain ⟨free, rfl⟩ := Mutex.acquire_map_eq_some run
      exact .locked dispatching outside user free
  · rename_i at_pc
    split at run
    · cases run
    · split at run
      · cases Option.some.inj run
        exact .invoked at_pc
      · cases run
  · rename_i at_pc
    exact .called at_pc run
  · rename_i at_pc
    cases Option.some.inj run
    exact .returned at_pc
  · rename_i dispatching at_pc
    split at run
    · obtain ⟨held, rfl⟩ := Mutex.release_map_eq_some run
      exact .unlocked dispatching at_pc held
    · cases run
  · cases run

/-- What an operation of a callback comes to. -/
theorem callbackStep_cases {ids : IdManager} {l l' : LockedDemuxer} {queue : List SubscriberPtr} {index : Nat}
    {action : DemuxerAction} (run : l.callbackStep ids queue index action = some l') :
    (action ≠ .receive ∧ action ≠ .destroy ∧ (l.demuxer.takesLock ids action = true → l.subscriberLock = .free) ∧
      l.outerStep ids action = some l') ∨
    (l.demuxer.takesLock ids action = true ∨ action = .destroy) ∧
      ∃ d, l' = { l with demuxer := d, dispatch := .relocking queue index } := by
  unfold callbackStep at run
  split at run
  · rename_i handles
    have other : action ≠ .receive ∧ action ≠ .destroy := by
      constructor <;> (intro same; rw [same] at handles; cases handles)
    split at run
    · rename_i takes
      split at run
      · rename_i m acquired
        exact Or.inl ⟨other.1, other.2, fun _ => (Mutex.acquire_eq_some acquired).1, run⟩
      · obtain ⟨_, -, rfl⟩ := Option.map_eq_some_iff.mp run
        exact Or.inr ⟨Or.inl takes, l.demuxer, rfl⟩
    · rename_i lockless
      exact Or.inl ⟨other.1, other.2, fun takes => absurd takes lockless, run⟩
  · split at run
    · obtain ⟨l₁, outer, rfl⟩ := Option.map_eq_some_iff.mp run
      obtain ⟨d, -, rfl⟩ := Option.map_eq_some_iff.mp outer
      exact Or.inr ⟨Or.inr rfl, d, rfl⟩
    · cases run

/-- What a callback is permitted to do takes no lock. -/
theorem Permitted.lockless {ids : IdManager} {l : LockedDemuxer} {action : DemuxerAction}
    (permitted : Permitted ids l (.callback action)) :
    l.demuxer.takesLock ids action = false ∧ action ≠ .destroy := by
  cases action with
  | subscribe i name => exact ⟨by simpa [takesLock, Permitted] using permitted, by simp⟩
  | destruct i =>
    refine ⟨?_, by simp⟩
    simp only [takesLock]
    split
    · rename_i s handle
      exact absurd handle (permitted s)
    · rfl
  | destroy => exact absurd permitted id
  | _ => exact ⟨rfl, by simp⟩

/-- The demuxer whose callbacks take no time: it looks up the subscribers and calls them when the dispatch ends. -/
def Refines (l : LockedDemuxer) (d : PacketDemuxer) : Prop :=
  match l.dispatch with
  | .outside => l.subscriberLock = .free ∧ l.demuxer = d
  | .loop queue _ | .callback queue _ => l.subscriberLock = .held .receive ∧ ∃ packet, d.receive = .dispatch packet ∧
      packet.type ≠ IdManager.controlPacket ∧ d.subscribers.get packet.type = queue ∧
      l.demuxer = d.withSubscribers (d.subscribers.touch packet.type)
  | .relocking .. => False

theorem Refines.inside {l : LockedDemuxer} {d : PacketDemuxer} (related : Refines l d)
    (inside : l.dispatch ≠ .outside) : l.subscriberLock = .held .receive ∧ ∃ queue index packet,
      (l.dispatch = .loop queue index ∨ l.dispatch = .callback queue index) ∧ d.receive = .dispatch packet ∧
      packet.type ≠ IdManager.controlPacket ∧ d.subscribers.get packet.type = queue ∧
      l.demuxer = d.withSubscribers (d.subscribers.touch packet.type) := by
  cases at_pc : l.dispatch with
  | outside => exact absurd at_pc inside
  | loop queue index =>
    simp only [Refines, at_pc] at related
    obtain ⟨held, packet, facts⟩ := related
    exact ⟨held, queue, index, packet, Or.inl rfl, facts⟩
  | callback queue index =>
    simp only [Refines, at_pc] at related
    obtain ⟨held, packet, facts⟩ := related
    exact ⟨held, queue, index, packet, Or.inr rfl, facts⟩
  | relocking queue index =>
    rw [Refines, at_pc] at related
    exact related.elim

/-- Within the dispatch, what the callback and the other threads do without the lock is a step of that demuxer. -/
theorem Refines.inner {ids : IdManager} {l l' : LockedDemuxer} {d : PacketDemuxer} {action : DemuxerAction}
    (related : Refines l d) (inside : l.dispatch ≠ .outside) (other : action ≠ .receive)
    (lockless : l.demuxer.takesLock ids action = false) (run : l.outerStep ids action = some l') :
    ∃ d', PacketDemuxer.step ids d action = some d' ∧ Refines l' d' := by
  obtain ⟨next, step, rfl⟩ := Option.map_eq_some_iff.mp run
  obtain ⟨held, queue, index, packet, at_pc, dispatching, user, list, same⟩ := related.inside inside
  rw [same] at lockless step
  rw [step_withSubscribers ids dispatching _ other lockless] at step
  obtain ⟨d', step', rfl⟩ := Option.map_eq_some_iff.mp step
  obtain ⟨receive, subscribers⟩ := (PacketDemuxer.step_effect step').lockless dispatching other lockless
  refine ⟨d', step', ?_⟩
  rcases at_pc with at_pc | at_pc <;> simp only [Refines, at_pc] <;>
    exact ⟨held, packet, receive, user, by rw [subscribers, list], by rw [subscribers]⟩

theorem Effect.refines {ids : IdManager} {l l' : LockedDemuxer} {d : PacketDemuxer} {action : LockedAction}
    (related : Refines l d) (permitted : Permitted ids l action) (effect : Effect ids l action l') :
    Refines l' d ∨ ∃ a d', PacketDemuxer.step ids d a = some d' ∧ Refines l' d' := by
  cases effect with
  | @outer action l' control free run =>
    by_cases outside : l.dispatch = .outside
    · obtain ⟨next, step, rfl⟩ := Option.map_eq_some_iff.mp run
      simp only [Refines, outside] at related ⊢
      obtain ⟨unlocked, rfl⟩ := related
      exact Or.inr ⟨action, next, step, unlocked, rfl⟩
    · obtain ⟨held, -, -, packet, -, dispatching, user, -, same⟩ := related.inside outside
      have other : action ≠ .receive := fun receives =>
        user (control receives packet (by rw [same]; exact dispatching))
      have lockless : l.demuxer.takesLock ids action = false := by
        rw [← Bool.not_eq_true]
        intro takes
        rw [free takes] at held
        cases held
      exact Or.inr ⟨action, related.inner outside other lockless run⟩
  | @locked packet dispatching outside user =>
    simp only [Refines, outside] at related
    obtain ⟨-, same⟩ := related
    rw [same] at dispatching ⊢
    exact Or.inl ⟨rfl, packet, dispatching, user, rfl, rfl⟩
  | invoked at_pc | returned at_pc => exact Or.inl (by simpa only [Refines, at_pc] using related)
  | @called queue index action l' at_pc run =>
    have inside : l.dispatch ≠ .outside := by rw [at_pc]; simp
    obtain ⟨lockless, survives⟩ := permitted.lockless
    rcases callbackStep_cases run with ⟨other, -, -, outer⟩ | ⟨takes | destroys, -⟩
    · exact Or.inr ⟨action, related.inner inside other lockless outer⟩
    · rw [lockless] at takes
      cases takes
    · exact absurd destroys survives
  | @unlocked packet queue index dispatching at_pc =>
    simp only [Refines, at_pc] at related
    obtain ⟨-, packet', dispatching', user, -, same⟩ := related
    rw [same] at dispatching ⊢
    cases dispatching'.symm.trans dispatching
    refine Or.inr ⟨.receive, d.dispatchStep packet, ?_, rfl, dispatchStep_touch user⟩
    simp [PacketDemuxer.step, receiveStep, dispatching']

/-- As long as the callbacks do what they may, the lock and the time that they take make no difference. -/
theorem refines_demuxer (ids : IdManager) : TransitionSystem.Simulation (system ids) (PacketDemuxer.system ids)
    (Permitted ids) (fun _ _ => True) Refines where
  start := ⟨rfl, rfl⟩
  step := by
    intro l action l' d _ related permitted run
    rcases (step_effect run).refines related permitted with same | ⟨a, d', step, related'⟩
    · exact Or.inl same
    · exact Or.inr ⟨a, d', trivial, step, related'⟩

theorem Refines.safe {l : LockedDemuxer} {d : PacketDemuxer} (related : Refines l d) : l.Safe := by
  refine ⟨fun queue index at_pc => ?_, fun queue index packet at_pc dispatching => ?_⟩
  · rw [Refines, at_pc] at related
    exact related.elim
  · have inside : l.dispatch ≠ .outside := by rcases at_pc with at_pc | at_pc <;> rw [at_pc] <;> simp
    obtain ⟨-, queue', index', packet', at_pc', dispatching', -, list, same⟩ := related.inside inside
    have begun : queue' = queue := by
      rcases at_pc with at_pc | at_pc <;> rcases at_pc' with
        at_pc' | at_pc' <;> rw [at_pc] at at_pc' <;> cases at_pc' <;> rfl
    rw [same] at dispatching ⊢
    cases dispatching'.symm.trans dispatching
    rw [← begun, ← list]
    exact KeyedLists.get_touch ..

/-- A callback that does anything else asks for the lock. -/
theorem Refines.relocks {names : List String} {ids : IdManager} (built : IdManager.ofList names = some ids)
    {l l' : LockedDemuxer} {d : PacketDemuxer} (reach : (PacketDemuxer.system ids).Reach d) (related : Refines l d)
    {action : LockedAction} (refused : ¬ Permitted ids l action) (effect : Effect ids l action l') : ¬ l'.Safe := by
  cases effect with
  | outer | locked | invoked | returned | unlocked => exact absurd trivial refused
  | @called queue index action l' at_pc run =>
    simp only [Refines, at_pc] at related
    obtain ⟨held, packet, dispatching, -, -, same⟩ := related
    have asks : l.demuxer.takesLock ids action = true ∨ action = .destroy := by
      cases action with
      | subscribe i name => exact Or.inl (by simpa [takesLock, Permitted, Option.isSome_iff_ne_none] using refused)
      | destroy => exact Or.inr rfl
      | destruct i =>
        simp only [Permitted, not_forall, not_not] at refused
        obtain ⟨s, handle⟩ := refused
        have alive : d.destructor ≠ .returned := by
          intro gone
          have exited := reach_gone reach gone
          rw [dispatching] at exited
          cases exited
        rw [same] at handle ⊢
        have count := (reach_ownInv built reach).counts i s (holds_eq_some.mpr handle)
        rw [if_neg alive] at count
        refine Or.inl ?_
        simp only [takesLock, handle]
        exact decide_eq_true (show d.useCount s.addr > 1 by omega)
      | _ => exact absurd trivial refused
    rcases callbackStep_cases run with ⟨-, survives, free, -⟩ | ⟨-, d', rfl⟩
    · have takes := asks.resolve_right survives
      rw [free takes] at held
      cases held
    · exact fun safe => safe.lock queue index rfl held

/-- Over all runs whose callbacks do only what they may: the receive thread does not ask for the lock it holds and the
list it iterates over stays as it is, and a further step keeps it so exactly if that is again such a step. -/
theorem callbacks_iff (names : List String) (ids : IdManager) (built : IdManager.ofList names = some ids)
    (l : LockedDemuxer) (reach : (system ids).ReachUnder (Permitted ids) l) :
    l.Safe ∧ ∀ action l', step ids l action = some l' → (l'.Safe ↔ Permitted ids l action) := by
  obtain ⟨d, there, related⟩ := (refines_demuxer ids).reach reach
  refine ⟨related.safe, fun action l' run => ⟨fun safe => ?_, fun permitted => ?_⟩⟩
  · by_contra refused
    exact related.relocks built there refused (step_effect run) safe
  · obtain ⟨d', -, related'⟩ := (refines_demuxer ids).reach (reach.next permitted run)
    exact related'.safe

/-- The handshake, a packet for the only subscriber, and the call of its callback. -/
def callsSubscriber : List LockedAction :=
  (.subscribe 0 "A" :: .arrive (ControlMessage.hello.packet.frame ++ (⟨2, [7]⟩ : ComPacket).frame) ::
    (frameActions ControlMessage.hello.packet ++ [.receive, .receive] ++ frameActions ⟨2, [7]⟩)).map .outer ++
  [.lock, .invoke]

/-- The callback asks for the lock. -/
def relocks (l : LockedDemuxer) : Bool :=
  match l.dispatch with
  | .relocking .. => true
  | _ => false

/-- A subscriber that wants one packet only and drops its handle in the callback. -/
theorem callbacks_fail : ¬ ∀ (names : List String) (ids : IdManager) (l : LockedDemuxer),
    IdManager.ofList names = some ids → (system ids).Reach l → l.Safe := by
  intro all
  obtain ⟨ids, built, l, reach, seen⟩ : ∃ ids, IdManager.ofList ["A"] = some ids ∧ ∃ l, (system ids).Reach l ∧
      (fun l : LockedDemuxer => (l.relocks, l.subscriberLock)) l = (true, .held .receive) :=
    ⟨_, rfl, TransitionSystem.ReachUnder.start.computed _ (callsSubscriber ++ [.callback (.destruct 0)])
      (fun _ _ _ => trivial) (by decide)⟩
  obtain ⟨asks, held⟩ := Prod.mk.inj seen
  have safe := all ["A"] ids l built reach
  cases at_pc : l.dispatch with
  | relocking queue index => exact safe.lock queue index at_pc held
  | _ => simp [relocks, at_pc] at asks

theorem permitted_of_quiet {action : LockedAction} (quiet : action.quiet = true) (ids : IdManager)
    (l : LockedDemuxer) : Permitted ids l action := by
  cases action with
  | callback action =>
    cases action with
    | subscribe | destruct | destroy => cases quiet
    | _ => trivial
  | _ => trivial

/-- The callback only moves its handle away. -/
theorem callbacks_iff_moved : ∃ (ids : IdManager) (l : LockedDemuxer), IdManager.ofList ["A"] = some ids ∧
    l.demuxer.log = [.subscribed ⟨0, 2⟩, .greeted ControlMessage.hello.packet, .dispatched ⟨1, 2, [7]⟩ [⟨0, 2⟩]] ∧
    l.Safe ∧ ∀ action l', step ids l action = some l' → (l'.Safe ↔ Permitted ids l action) := by
  let actions : List LockedAction := callsSubscriber ++ [.callback (.moveConstruct 1 0), .returns, .unlock]
  have quiet : actions.all LockedAction.quiet = true := by decide
  obtain ⟨ids, built, l, reach, log⟩ : ∃ ids, IdManager.ofList ["A"] = some ids ∧
      ∃ l, (system ids).ReachUnder (Permitted ids) l ∧ (fun l : LockedDemuxer => l.demuxer.log) l =
        [.subscribed ⟨0, 2⟩, .greeted ControlMessage.hello.packet, .dispatched ⟨1, 2, [7]⟩ [⟨0, 2⟩]] :=
    ⟨_, rfl, TransitionSystem.ReachUnder.start.computed _ actions
      (fun action member => permitted_of_quiet (List.all_eq_true.mp quiet action member) _) (by decide)⟩
  exact ⟨ids, l, built, log, callbacks_iff ["A"] ids built l reach⟩

end LockedDemuxer

end PacketComms
