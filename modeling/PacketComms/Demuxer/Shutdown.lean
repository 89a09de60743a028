import PacketComms.Demuxer.Dispatch

namespace PacketComms

namespace DemuxerAction

/-- A step of the receive thread. -/
def receiving : DemuxerAction → Bool
  | .ready _ | .read _ | .receive => true
  | _ => false

/-- A read from the transport. -/
def reads : DemuxerAction → Bool
  | .read _ => true
  | _ => false

end DemuxerAction

namespace ReceivePc

/-- The reads to come once the error is noted: one, if the loop test of `readBytes` was passed before. -/
def readsLeft : ReceivePc → Nat
  | .read .. => 1
  | _ => 0

/-- At most so many steps the thread makes once the error is noted. -/
def stepsLeft : ReceivePc → Nat
  | .ready _ | .read .. => 4
  | .test .. => 3
  | .check .. | .greet _ | .dispatch _ => 2
  | .loop => 1
  | .exited | .aborted => 0

/-- What the thread does in `readBytes` from here on if the error is noted and `read` returns zero. -/
def starve : ReceivePc → List DemuxerAction
  | .test .. => [.receive, .receive]
  | .read .. => [.read (.count 0), .receive, .receive]
  | .check .. => [.receive]
  | _ => []

theorem mem_inHand {pc : ReceivePc} {packet : ComPacket} (held : packet ∈ pc.inHand) :
    pc = .greet packet ∨ pc = .dispatch packet := by
  cases pc with
  | greet | dispatch =>
    cases List.mem_singleton.mp held
    simp
  | _ => cases held

end ReceivePc

namespace PacketDemuxer

/-- What these actions can do that lead from `d` to `d'` after the error was noted. -/
structure Ends (d : PacketDemuxer) (actions : List DemuxerAction) (d' : PacketDemuxer) : Prop where
  flag : d'.transportError = true
  reads : actions.countP (·.reads) + d'.receive.readsLeft ≤ d.receive.readsLeft
  steps : actions.countP (·.receiving) + d'.receive.stepsLeft ≤ d.receive.stepsLeft
  dealt : ∃ more, dealtWith d'.log = dealtWith d.log ++ more ∧ more ++ d'.receive.inHand <+: d.receive.inHand
  silent : d.receive = .exited → d'.receive = .exited ∧ invocations d'.log = invocations d.log

theorem Ends.trans {d d' d'' : PacketDemuxer} {before after : List DemuxerAction} (first : Ends d before d')
    (second : Ends d' after d'') : Ends d (before ++ after) d'' := by
  refine ⟨second.flag, ?_, ?_, ?_, fun exited => ?_⟩
  · have := first.reads
    have := second.reads
    rw [List.countP_append]
    omega
  · have := first.steps
    have := second.steps
    rw [List.countP_append]
    omega
  · obtain ⟨more, log, hand⟩ := first.dealt
    obtain ⟨more', log', hand'⟩ := second.dealt
    refine ⟨more ++ more', by rw [log', log, List.append_assoc], ?_⟩
    rw [List.append_assoc]
    exact ((List.prefix_append_right_inj more).mpr hand').trans hand
  · obtain ⟨exited', same⟩ := first.silent exited
    obtain ⟨exited'', same'⟩ := second.silent exited'
    exact ⟨exited'', same'.trans same⟩

/-- A step of another thread. -/
theorem Ends.other {d d' : PacketDemuxer} {action : DemuxerAction} (flag : d'.transportError = true)
    (receive : d'.receive = d.receive) (elsewhere : action.receiving = false)
    (dealt : dealtWith d'.log = dealtWith d.log)
    (calls : invocations d'.log = invocations d.log) : Ends d [action] d' := by
  have none : action.reads = false := by
    cases action with
    | read => cases elsewhere
    | _ => rfl
  refine ⟨flag, ?_, ?_, ⟨[], by simp [dealt], by simp [receive]⟩, fun exited => ⟨receive.trans exited, calls⟩⟩
  · simp [receive, none]
  · simp [receive, elsewhere]

/-- A step of the receive thread that has nothing to do with packets. -/
theorem Ends.onward {d d' : PacketDemuxer} {action : DemuxerAction} (flag : d'.transportError = true)
    (running : d.receive ≠ .exited)
    (reads : [action].countP (·.reads) + d'.receive.readsLeft ≤ d.receive.readsLeft)
    (steps : [action].countP (·.receiving) + d'.receive.stepsLeft ≤ d.receive.stepsLeft) (log : d'.log = d.log)
    (hand : d'.receive.inHand = []) : Ends d [action] d' :=
  ⟨flag, reads, steps, ⟨[], by simp [log], by simp [hand]⟩, fun exited => absurd exited running⟩

/-- The packet in hand is dealt with. -/
theorem Ends.dealing {d d' : PacketDemuxer} {packet : ComPacket} (flag : d'.transportError = true)
    (at_pc : d.receive = .greet packet ∨ d.receive = .dispatch packet) (after : d'.receive = .loop)
    (log : dealtWith d'.log = dealtWith d.log ++ [packet]) : Ends d [.receive] d' := by
  have hand : d.receive.inHand = [packet] := by rcases at_pc with at_pc | at_pc <;> rw [at_pc] <;> rfl
  refine ⟨flag, ?_, ?_, ⟨[packet], log, by rw [after, hand]; exact List.prefix_rfl⟩, fun exited => ?_⟩
  · rw [after]
    exact Nat.zero_le _
  · rcases at_pc with at_pc | at_pc <;> rw [at_pc, after] <;> exact le_rfl
  · rw [exited] at hand
    cases hand

theorem Effect.ends {ids : IdManager} {d d' : PacketDemuxer} {action : DemuxerAction} (flag : d.transportError = true)
    (effect : Effect ids d action d') : Ends d [action] d' := by
  cases effect with
  | arrived | constructed | moveConstructed | moveAssigned | destructedNull | warned | joined | unknown =>
    exact .other flag rfl rfl rfl rfl
  | destroys => exact .other rfl rfl rfl rfl rfl
  | subscribed => exact .other flag rfl rfl (dealtWith_subscribed ..) (by simp [DemuxerEvent.calls])
  | destructed _ same =>
    subst same
    split
    · exact .other (by simpa using flag) (by simp) rfl (by simp) (by simp [DemuxerEvent.calls])
    · exact .other flag rfl rfl (dealtWith_destructed ..) (by simp [DemuxerEvent.calls])
  | reads _ _ unset | typed _ unset | threw _ unset | sized _ unset | asserted _ unset | received _ unset
  | continues _ unset =>
    rw [flag] at unset
    cases unset
  | readied at_pc | timedOut at_pc | leaves at_pc | failed at_pc | got at_pc | refused at_pc | exits at_pc
  | crashed at_pc =>
    refine .onward (by simp [flag]) (by simp [at_pc]) ?_ ?_ rfl rfl
    · simp [DemuxerAction.reads, ReceivePc.readsLeft, at_pc]
    · simp [DemuxerAction.receiving, ReceivePc.stepsLeft, at_pc]
  | greeted at_pc => exact .dealing flag (Or.inl at_pc) rfl (dealtWith_greeted ..)
  | rejected at_pc => exact .dealing rfl (Or.inl at_pc) rfl (dealtWith_greeted ..)
  | handled at_pc => exact .dealing flag (Or.inr at_pc) rfl (dealtWith_handled ..)
  | dispatched at_pc => exact .dealing flag (Or.inr at_pc) rfl (dealtWith_dispatched ..)

/-- The destructor notes the error before anything else. -/
theorem Effect.signalled {ids : IdManager} {d d' : PacketDemuxer} {action : DemuxerAction}
    (noted : d.destructor ≠ .notCalled → d.transportError = true) (effect : Effect ids d action d') :
    d'.destructor ≠ .notCalled → d'.transportError = true := by
  intro called
  by_cases before : d.destructor = .notCalled
  · cases effect with
    | destroys => rfl
    | warned calling | joined calling =>
      rw [before] at calling
      cases calling
    | destructed _ same =>
      subst same
      split at called
      · exact absurd before (by simpa using called)
      · exact absurd before called
    | _ => exact absurd before called
  · exact (effect.ends (noted before)).flag

theorem reach_signalled {ids : IdManager} {d : PacketDemuxer} (reach : (system ids).Reach d) :
    d.destructor ≠ .notCalled → d.transportError = true :=
  reach.invariant (I := fun d => d.destructor ≠ .notCalled → d.transportError = true) (absurd rfl)
    (fun _ noted _ run => (step_effect run).signalled noted)

theorem run_ends {ids : IdManager} {actions : List DemuxerAction} {d d' : PacketDemuxer}
    (flag : d.transportError = true) (run : (system ids).run d actions = some d') : Ends d actions d' := by
  induction actions generalizing d with
  | nil =>
    cases Option.some.inj run
    exact ⟨flag, by simp, by simp, ⟨[], by simp, by simp⟩, fun exited => ⟨exited, rfl⟩⟩
  | cons action actions ih =>
    obtain ⟨middle, step, rest⟩ := Option.bind_eq_some_iff.mp run
    have first := (step_effect step).ends flag
    exact first.trans (ih first.flag rest)

/-- `readBytes` is left, also if the transport gives nothing. -/
theorem starve_run (ids : IdManager) {d : PacketDemuxer} (flag : d.transportError = true)
    (inside : d.receive.reading ≠ none) :
    ∃ d', (system ids).run d d.receive.starve = some d' ∧ d'.receive = .loop := by
  cases at_pc : d.receive with
  | test caller field buffer size | check caller field buffer size =>
    exact ⟨{ d with receive := .loop }, by
      simp [ReceivePc.starve, TransitionSystem.run, system, step, receiveStep, at_pc, flag], rfl⟩
  | read caller field buffer size =>
    exact ⟨{ d with receive := .loop }, by
      simp [ReceivePc.starve, TransitionSystem.run, system, step, receiveStep, at_pc, flag, Field.onZero_eq], rfl⟩
  | _ =>
    rw [at_pc] at inside
    exact absurd rfl inside

/-- The destructor notes the error. Whatever the threads do after it was noted: it stays noted, the receive thread reads
at most once, deals with the packet in its hands at most, all of whose bytes were read, and makes four steps at most;
it gets out of `readBytes` on a transport that gives nothing. Once the destructor has returned the receive thread has
ended, and no callback is invoked. -/
theorem shutdown_prompt (ids : IdManager) (d : PacketDemuxer) (reach : (system ids).Reach d) :
    (d.destructor ≠ .notCalled → d.transportError = true) ∧
    (d.transportError = true →
      (∀ actions d', (system ids).run d actions = some d' →
        d'.transportError = true ∧
        actions.countP (·.reads) ≤ d.receive.readsLeft ∧
        (∃ more, dealtWith d'.log = dealtWith d.log ++ more ∧ more.length ≤ 1 ∧ ∀ p ∈ more,
          d.received = dealtWith d.log ++ [p] ∧ ComPacket.code.stream d.received ++ d.input = d.arrived) ∧
        actions.countP (·.receiving) + d'.receive.stepsLeft ≤ d.receive.stepsLeft) ∧
      (d.receive.reading ≠ none → ∃ d', (system ids).run d d.receive.starve = some d' ∧ d'.receive = .loop)) ∧
    (d.destructor = .returned → ∀ actions d', (system ids).run d actions = some d' →
      d'.receive = .exited ∧ invocations d'.log = invocations d.log) := by
  refine ⟨reach_signalled reach, fun flag => ⟨fun actions d' run => ?_, starve_run ids flag⟩,
    fun gone actions d' run => ?_⟩
  · have ends := run_ends flag run
    obtain ⟨more, log, hand⟩ := ends.dealt
    have taken : more <+: d.receive.inHand := (List.prefix_append _ _).trans hand
    have one : d.receive.inHand.length ≤ 1 := by cases d.receive <;> simp [ReceivePc.inHand]
    refine ⟨ends.flag, Nat.le_of_add_right_le ends.reads, ⟨more, log, taken.length_le.trans one, fun p member => ?_⟩,
      ends.steps⟩
    have all := (reach_handledInv reach).all
    have between := (reach_readInv reach).between
    rcases ReceivePc.mem_inHand (taken.subset member) with at_pc | at_pc
    · rw [at_pc] at all
      exact ⟨(all (by simp)).symm, between (by simp [Between, at_pc])⟩
    · rw [at_pc] at all
      exact ⟨(all (by simp)).symm, between (by simp [Between, at_pc])⟩
  · have flag := reach_signalled reach (by simp [gone])
    exact (run_ends flag run).silent (reach_gone reach gone)

/-- The destructor is called while the receive thread is in its first read. -/
def destroyInRead : List DemuxerAction := [.ready true, .receive, .destroy]

theorem shutdown_prompt_in_read : ∃ (ids : IdManager) (d : PacketDemuxer), IdManager.ofList [] = some ids ∧
    d.receive.readsLeft = 1 ∧ d.destructor = .warning ∧ d.transportError = true ∧
    ∀ actions d', (system ids).run d actions = some d' → d'.transportError = true ∧
      actions.countP (·.reads) ≤ 1 ∧ actions.countP (·.receiving) + d'.receive.stepsLeft ≤ d.receive.stepsLeft := by
  obtain ⟨ids, built⟩ : ∃ ids, IdManager.ofList [] = some ids := IdManager.ofList_exists (by decide)
  have initial : (system ids).Reach {} := .start
  obtain ⟨d, reach, seen⟩ := initial.computed
    (fun d : PacketDemuxer => (d.receive.readsLeft, d.destructor)) destroyInRead (fun _ _ _ => trivial)
    (r := (1, .warning)) rfl
  obtain ⟨reading, destructor⟩ := Prod.mk.inj seen
  obtain ⟨signalled, prompt, -⟩ := shutdown_prompt ids d reach
  have flag := signalled (by simp [destructor])
  refine ⟨ids, d, built, reading, destructor, flag, fun actions d' run => ?_⟩
  obtain ⟨still, reads, -, steps⟩ := (prompt flag).1 actions d' run
  rw [reading] at reads
  exact ⟨still, reads, steps⟩

end PacketDemuxer

end PacketComms
