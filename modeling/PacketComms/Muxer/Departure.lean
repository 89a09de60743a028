import PacketComms.Muxer.Liveness

namespace PacketComms

/-- How far the destructor is from joining the send thread. -/
def DestructorPc.rank : DestructorPc → Nat
  | .locking => 3
  | .storing => 2
  | .unlocking => 1
  | .notCalled | .joining | .returned => 0

/-- It has been called and does not yet wait for the send thread. -/
def DestructorPc.Stopping (pc : DestructorPc) : Prop := pc = .locking ∨ pc = .storing ∨ pc = .unlocking

namespace PacketMuxer

/-- A send thread that has left does nothing more. -/
theorem Effect.exited {ids : IdManager} {m m' : PacketMuxer} {action : MuxerAction} (effect : Effect ids m action m')
    (exited : m.send = .exited) : m'.send = .exited ∧ ¬ SendThread m action := by
  cases effect with
  | threw | called | destroy | destroyLocked | destroyUnlocked | destroyJoined => exact ⟨exited, id⟩
  | user step =>
    refine ⟨?_, id⟩
    rcases step.send with same | ⟨n, waiting, -⟩
    · exact same.trans exited
    · rw [exited] at waiting
      cases waiting
  | destroyStored =>
    refine ⟨?_, id⟩
    rcases m.stored_send with same | ⟨n, waiting, -⟩
    · exact same.trans exited
    · rw [exited] at waiting
      cases waiting
  | _ => simp_all

/-- A destructor that has been called stays so. -/
theorem Effect.stays_called {ids : IdManager} {m m' : PacketMuxer} {action : MuxerAction}
    (effect : Effect ids m action m') (called : m.destructor ≠ .notCalled) : m'.destructor ≠ .notCalled := by
  by_cases own : DestructorThread m action
  · cases effect with
    | destroyLocked | destroyStored | destroyUnlocked | destroyJoined => simp
    | _ => cases own
  · rwa [effect.destructor_stands own called]

/-- All that is left to a destructor that waits for the send thread is to return. -/
theorem Effect.joins {ids : IdManager} {m m' : PacketMuxer} {action : MuxerAction} (effect : Effect ids m action m')
    (joining : m.destructor = .joining) (own : DestructorThread m action) :
    m.send = .exited ∧ m'.destructor = .returned := by
  cases effect with
  | destroyJoined _ exited => exact ⟨exited, rfl⟩
  | destroyLocked at_pc | destroyStored at_pc | destroyUnlocked at_pc => simp [joining] at at_pc
  | _ => cases own

section Runs

variable {names : List String} {ids : IdManager} {allowed : String → PacketArgs → Prop}
  {C : PacketMuxer → MuxerAction → Prop} {e : (system ids).Execution C}

/-- The destructor gets the lock, sets the flag and gives the lock back. -/
theorem destructor_joins (proper : Proper ids allowed C) (built : IdManager.ofList names = some ids)
    (fair : FairThreads e) : e.LeadsTo (fun m => m.destructor.Stopping) (fun m => m.destructor = .joining) := by
  have called {m : PacketMuxer} (stopping : m.destructor.Stopping) : m.destructor ≠ .notCalled := by
    rintro uncalled
    simp [DestructorPc.Stopping, uncalled] at stopping
  have goes {m m' : PacketMuxer} {a : MuxerAction} (stopping : m.destructor.Stopping) (effect : Effect ids m a m')
      (own : DestructorThread m a) :
      m'.destructor = .joining ∨ m'.destructor.Stopping ∧ m'.destructor.rank < m.destructor.rank := by
    cases effect with
    | destroyLocked at_pc => exact Or.inr ⟨Or.inr (Or.inl rfl), by simp [at_pc, DestructorPc.rank]⟩
    | destroyStored at_pc =>
      exact Or.inr ⟨Or.inr (Or.inr (notify_destructor _)), by simp [at_pc, DestructorPc.rank]⟩
    | destroyUnlocked => exact Or.inl rfl
    | destroyJoined at_pc => simp [DestructorPc.Stopping, at_pc] at stopping
    | _ => cases own
  refine .descend_own fair.destructor (fun m => m.destructor.rank) ?_ ?_ ?_
  · intro m a m' reach stopping met other run
    have same := (step_effect run).destructor_stands other (called stopping)
    exact Or.inr ⟨same ▸ stopping, (congrArg DestructorPc.rank same).le⟩
  · exact fun m a m' reach stopping met own run => goes stopping (step_effect run) own
  · intro n stays
    obtain ⟨m, later, free⟩ := lock_freed proper built fair n trivial
    exact ⟨m, later, proper.enabled_destructor built (e.reach m) (stays m later).1 (fun t _ => by rw [free]; rfl)⟩

/-- The send thread sees the flag and leaves. -/
theorem send_leaves (proper : Proper ids allowed C) (built : IdManager.ofList names = some ids) (fair : FairThreads e) :
    e.LeadsTo (fun m => m.destructor = .joining) (fun m => m.destructor = .joining ∧ m.send = .exited) := by
  have stays {m m' : PacketMuxer} {a : MuxerAction} (joining : m.destructor = .joining) (working : m.send ≠ .exited)
      (run : (system ids).step m a = some m') : m'.destructor = .joining := by
    by_cases own : DestructorThread m a
    · exact absurd ((step_effect run).joins joining own).1 working
    · exact ((step_effect run).destructor_stands own (by simp [joining])).trans joining
  have nearer {m m' : PacketMuxer} {a : MuxerAction} (reach : (system ids).ReachUnder C m)
      (joining : m.destructor = .joining) (own : SendThread m a) (run : (system ids).step m a = some m') :
      m'.distance < m.distance := by
    refine ((step_effect run).nears reach.forget own).resolve_right (fun ⟨_, unset, _, _⟩ => ?_)
    rw [reach_stored reach.forget (Or.inr (Or.inl joining))] at unset
    cases unset
  have ends {m' : PacketMuxer} (joining : m'.destructor = .joining) :
      (m'.destructor = .joining ∧ m'.send = .exited) ∨ m'.destructor = .joining ∧ m'.send ≠ .exited := by
    by_cases exited : m'.send = .exited
    · exact Or.inl ⟨joining, exited⟩
    · exact Or.inr ⟨joining, exited⟩
  have lead : e.LeadsTo (fun m => m.destructor = .joining ∧ m.send ≠ .exited)
      (fun m => m.destructor = .joining ∧ m.send = .exited) := by
    refine .descend_own fair.send distance ?_ ?_ ?_
    · rintro m a m' reach ⟨joining, working⟩ met other run
      refine (ends (stays joining working run)).imp id (fun still => ⟨still, ?_⟩)
      exact ((step_effect run).distance_stands (reach_lockInv reach) (reach_writeInv reach) other).le
    · rintro m a m' reach ⟨joining, working⟩ met own run
      exact (ends (stays joining working run)).imp id (fun still => ⟨still, nearer reach joining own run⟩)
    · intro n still
      obtain ⟨m, later, free⟩ := lock_freed proper built fair n trivial
      exact ⟨m, later, proper.enabled_send built (e.reach m) (still m later).1.2 (fun t _ => by rw [free]; rfl)⟩
  exact lead.cases (.of_imp (fun _ _ => id)) (fun m _ joining => (ends joining).symm)

/-- Over a transport that goes on taking bytes, or reports its failure, the destructor of the muxer returns. -/
theorem destructor_returns (names : List String) (ids : IdManager) (built : IdManager.ofList names = some ids)
    (allowed : String → PacketArgs → Prop) (C : PacketMuxer → MuxerAction → Prop) (proper : Proper ids allowed C)
    (e : (system ids).Execution C) (fair : FairThreads e) :
    e.LeadsTo (fun m => m.destructor ≠ .notCalled) (fun m => m.destructor = .returned) := by
  have returns :
      e.LeadsTo (fun m => m.destructor = .joining ∧ m.send = .exited) (fun m => m.destructor = .returned) := by
    refine .once fair.destructor ?_ ?_ ?_
    · rintro m a m' reach ⟨joining, exited⟩ met run
      by_cases own : DestructorThread m a
      · exact Or.inl ((step_effect run).joins joining own).2
      · have effect := step_effect run
        exact Or.inr ⟨(effect.destructor_stands own (by simp [joining])).trans joining, (effect.exited exited).1⟩
    · rintro m a m' reach ⟨joining, -⟩ met own run
      exact ((step_effect run).joins joining own).2
    · intro n stays
      obtain ⟨joining, exited⟩ := (stays n (Nat.le_refl n)).1
      have joined : Effect ids (e.state n) .destroyed { e.state n with destructor := .returned } :=
        .destroyJoined joining exited
      exact ⟨n, Nat.le_refl n, joined.enabled proper (by simp [exited]) trivial trivial⟩
  have joined := ((send_leaves proper built fair).trans returns)
  have stopped := (destructor_joins proper built fair).trans joined
  refine stopped.cases (joined.cases (.of_imp (fun _ _ => id)) (fun _ _ => id)) ?_
  intro m _ called
  cases at_pc : m.destructor with
  | notCalled => exact absurd at_pc called
  | locking => exact Or.inl (Or.inl rfl)
  | storing => exact Or.inl (Or.inr (Or.inl rfl))
  | unlocking => exact Or.inl (Or.inr (Or.inr rfl))
  | joining => exact Or.inr (Or.inl rfl)
  | returned => exact Or.inr (Or.inr rfl)

end Runs

theorem destructor_returns_asleep :
    ∃ (ids : IdManager) (e : (system ids).Execution (Posts (fun name _ => name ∈ ["A"]))),
    IdManager.ofList ["A"] = some ids ∧ (∃ n, (e.state n).destructor ≠ .notCalled) ∧
    e.LeadsTo (fun m => m.destructor ≠ .notCalled) (fun m => m.destructor = .returned) := by
  obtain ⟨ids, m, built, run, exited, idle, gone⟩ : ∃ ids m, IdManager.ofList ["A"] = some ids ∧
      (system ids).run (system ids).start sendsAndLeaves = some m ∧ m.send = .exited ∧ m.users = (fun _ => .idle) ∧
      m.destructor = .returned := ⟨_, _, rfl, rfl, rfl, rfl, rfl⟩
  have fair := fair_left (sendsAndLeaves_met ids (fun name _ => name ∈ ["A"])) run exited idle gone
  refine ⟨ids, _, built, ⟨sendsAndLeaves.length, ?_⟩,
    destructor_returns ["A"] ids built _ _ (proper_named built (by decide)) _ fair⟩
  rw [TransitionSystem.Execution.ofRun_last (Nat.le_refl _), gone]
  simp

end PacketMuxer

end PacketComms
