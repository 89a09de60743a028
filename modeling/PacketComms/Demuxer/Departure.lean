import PacketComms.Demuxer.Liveness

namespace PacketComms

/-- What is left of the destructor. -/
def DemuxerDestructor.stage : DemuxerDestructor → Nat
  | .notCalled => 3
  | .warning => 2
  | .joining => 1
  | .returned => 0

namespace PacketDemuxer

section Effects

variable {ids : IdManager} {d d' : PacketDemuxer} {action : DemuxerAction}

/-- A step of the destructor brings it on, and no other step moves it. -/
theorem Effect.destructor (effect : Effect ids d action d') :
    (action = .destroy ∧ d'.destructor.stage < d.destructor.stage) ∨
      (action ≠ .destroy ∧ d'.destructor = d.destructor) := by
  cases effect with
  | destroys at_pc | warned at_pc | joined at_pc => exact Or.inl ⟨rfl, by simp [at_pc, DemuxerDestructor.stage]⟩
  | destructed _ same =>
    subst same
    split
    · exact Or.inr ⟨by simp, by simp⟩
    · exact Or.inr ⟨by simp, rfl⟩
  | _ => exact Or.inr ⟨by simp, rfl⟩

/-- The destructor stays called. -/
theorem Effect.called (effect : Effect ids d action d') (called : d.destructor ≠ .notCalled) :
    d'.destructor ≠ .notCalled := by
  rcases effect.destructor with ⟨-, less⟩ | ⟨-, same⟩
  · intro now
    rw [now] at less
    cases at_pc : d.destructor <;> simp [at_pc, DemuxerDestructor.stage] at less called
  · rwa [same]

/-- A thread that has stopped stays where it is. -/
theorem Effect.stopped (effect : Effect ids d action d') (stopped : d.receive = .exited) : d'.receive = .exited := by
  by_cases turn : ReceiveThread d action
  · cases effect with
    | unknown | arrived | subscribed | constructed | moveConstructed | moveAssigned | destructedNull | destructed
    | destroys | warned | joined => cases turn
    | _ => simp_all
  · rw [(effect.stands turn).1, stopped]

end Effects

section Runs

variable {ids : IdManager} {C : PacketDemuxer → DemuxerAction → Prop} {e : (system ids).Execution C}

/-- Until it has left, the receive thread can go on, whatever the transport has. -/
theorem Live.enabled (live : Live C) {d : PacketDemuxer} (working : d.receive ≠ .exited)
    (alive : d.receive ≠ .aborted) : (system ids).Enabled C ReceiveThread d := by
  cases at_pc : d.receive with
  | ready caller => exact ⟨.ready true, _, live.ready d, rfl, by simp [system, step, at_pc]; rfl⟩
  | read caller field buffer size =>
    exact ⟨.read (.count 0), _, live.nothing d, rfl, by simp [system, step, at_pc, Field.onZero_eq]; rfl⟩
  | exited => exact absurd at_pc working
  | aborted => exact absurd at_pc alive
  | test | check | greet | loop | dispatch =>
    obtain ⟨d', run⟩ := receive_exists ids d (by rw [at_pc]; trivial)
    exact ⟨.receive, d', live.receive d, rfl, run⟩

/-- Once the error is noted the receive thread leaves. -/
theorem receiver_leaves (live : Live C) (fair : FairThreads e) :
    e.LeadsTo (fun d => d.destructor ≠ .notCalled)
      (fun d => d.destructor ≠ .notCalled ∧ (d.receive = .aborted ∨ d.receive = .exited)) := by
  have ends {d d' : PacketDemuxer} {a : DemuxerAction} (reach : (system ids).ReachUnder C d)
      (called : d.destructor ≠ .notCalled) (run : (system ids).step d a = some d') : d'.destructor ≠ .notCalled ∧
        [a].countP (·.receiving) + d'.receive.stepsLeft ≤ d.receive.stepsLeft := by
    have effect := step_effect run
    exact ⟨effect.called called, (effect.ends (reach_signalled reach.forget called)).steps⟩
  refine .descend_own fair.receive (fun d => d.receive.stepsLeft) ?_ ?_ ?_
  · intro d a d' reach called _ _ run
    obtain ⟨still, steps⟩ := ends reach called run
    exact Or.inr ⟨still, Nat.le_trans (Nat.le_add_left _ _) steps⟩
  · intro d a d' reach called _ own run
    obtain ⟨still, steps⟩ := ends reach called run
    have one : [a].countP (·.receiving) = 1 := by simp [show a.receiving = true from own]
    exact Or.inr ⟨still, by omega⟩
  · intro n stays
    obtain ⟨called, around⟩ := stays n (Nat.le_refl n)
    simp only [not_and, not_or] at around
    exact ⟨n, Nat.le_refl n, live.enabled (around called).2 (around called).1⟩

/-- Then the destructor goes on to its end. -/
theorem receiver_joins (live : Live C) (fair : FairThreads e) :
    e.LeadsTo (fun d => d.destructor ≠ .notCalled ∧ d.receive = .exited) (fun d => d.destructor = .returned) := by
  refine .descend_own fair.destructor (fun d => d.destructor.stage) ?_ ?_ ?_
  · intro d a d' _ ⟨called, exited⟩ _ _ run
    have effect := step_effect run
    refine Or.inr ⟨⟨effect.called called, effect.stopped exited⟩, ?_⟩
    rcases effect.destructor with ⟨-, less⟩ | ⟨-, same⟩
    · exact less.le
    · rw [same]
  · intro d a d' _ ⟨called, exited⟩ _ own run
    have effect := step_effect run
    have less := (effect.destructor.resolve_right (fun other => other.1 own.2)).2
    exact Or.inr ⟨⟨effect.called called, effect.stopped exited⟩, less⟩
  · intro n stays
    obtain ⟨⟨called, exited⟩, around⟩ := stays n (Nat.le_refl n)
    refine ⟨n, Nat.le_refl n, .destroy, ?_⟩
    cases at_pc : (e.state n).destructor with
    | notCalled => exact absurd at_pc called
    | returned => exact absurd at_pc around
    | warning | joining =>
      exact ⟨_, live.destroy _ called, ⟨called, rfl⟩, by simp [system, step, destroyStep, at_pc, exited]; rfl⟩

end Runs

/-- With the error noted, only an empty control packet in the hands of `receiveHelloMessage` ends the process. -/
theorem reach_crashed {ids : IdManager} {d : PacketDemuxer} (reach : (system ids).Reach d)
    (called : d.destructor ≠ .notCalled) (aborted : d.receive = .aborted) :
    d.received = [⟨IdManager.controlPacket, []⟩] := by
  refine reach.invariant (I := fun d => d.destructor ≠ .notCalled → d.receive = .aborted →
    d.received = [⟨IdManager.controlPacket, []⟩]) (fun called => absurd rfl called) ?_ called aborted
  intro d a d' before inv _ run called aborted
  have alive : d.receive ≠ .aborted := by
    intro dead
    have stuck : step ids d a = some d' := run
    unfold step at stuck
    rw [dead] at stuck
    cases stuck
  cases step_effect run with
  | threw at_pc flag | asserted at_pc flag =>
    rw [reach_signalled before called] at flag
    cases flag
  | @crashed packet at_pc empty =>
    have received := (reach_handledInv before).received_eq (by rw [at_pc]; trivial)
    rw [at_pc] at received
    exact received.trans (congrArg (fun p => [p]) empty)
  | destructed _ same =>
    subst same
    split at aborted
    · exact absurd (by simpa using aborted) alive
    · exact absurd aborted alive
  | arrived | unknown | subscribed | constructed | moveConstructed | moveAssigned | destructedNull | destroys | warned
  | joined => exact absurd aborted alive
  | @received caller => cases caller <;> cases aborted
  | _ => cases aborted

/-- The destructor of the demuxer returns, whatever the transport answers, unless the process has come to an end over a
first packet that is an empty control packet. -/
theorem receiver_destroyed (ids : IdManager) (C : PacketDemuxer → DemuxerAction → Prop) (live : Live C)
    (e : (system ids).Execution C) (fair : FairThreads e) : e.LeadsTo (fun d => d.destructor ≠ .notCalled)
      (fun d => d.receive = .aborted ∧ d.received = [⟨IdManager.controlPacket, []⟩] ∨ d.destructor = .returned) := by
  have crashed : e.LeadsTo (fun d => d.destructor ≠ .notCalled ∧ d.receive = .aborted)
      (fun d => d.receive = .aborted ∧ d.received = [⟨IdManager.controlPacket, []⟩] ∨ d.destructor = .returned) :=
    .of_imp (fun d reach ⟨called, aborted⟩ => Or.inl ⟨aborted, reach_crashed reach.forget called aborted⟩)
  exact (receiver_leaves live fair).trans (.cases crashed ((receiver_joins live fair).mono (fun _ _ => id)
    (fun _ _ => Or.inr)) (fun _ _ left => and_or_left.mp left))

theorem receiver_destroyed_two : ∃ (ids : IdManager) (e : (system ids).Execution SoundPeer),
    (∃ n, (e.state n).destructor ≠ .notCalled) ∧ e.LeadsTo (fun d => d.destructor ≠ .notCalled)
      (fun d => d.receive = .aborted ∧ d.received = [⟨IdManager.controlPacket, []⟩] ∨ d.destructor = .returned) := by
  obtain ⟨d, run, exited, gone⟩ : ∃ d, (system IdManager.reserved).run (system IdManager.reserved).start
      receivesAndLeaves = some d ∧ d.receive = .exited ∧ d.destructor = .returned := ⟨_, rfl, rfl, rfl⟩
  have fair := fair_gone (receivesAndLeaves_met IdManager.reserved) run exited gone
  refine ⟨IdManager.reserved, _, ⟨receivesAndLeaves.length, ?_⟩,
    receiver_destroyed IdManager.reserved SoundPeer live_soundPeer _ fair⟩
  rw [TransitionSystem.Execution.ofRun_last (Nat.le_refl _), gone]
  simp

end PacketDemuxer

end PacketComms
