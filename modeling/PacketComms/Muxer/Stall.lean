import PacketComms.Muxer.Progress

namespace PacketComms

namespace PacketMuxer

/-- From where the destructor is, nothing that only a peer or a posting thread could change is in its way:
before it has the lock no thread that posts may have it, and the send thread must give it back without a byte
written; later the send thread needs it once more, if it has not stopped. -/
def CanStop (m : PacketMuxer) : Prop :=
  match m.destructor with
  | .locking => (∀ i, (m.users i).holds = 0) ∧ m.Yields
  | .joining => m.send = .exited ∨ ∀ i, (m.users i).holds = 0
  | _ => True

/-- The destructor waits for ever. -/
def Stuck (m : PacketMuxer) : Prop :=
  m.destructor = .locking ∧ ((∃ i, 0 < (m.users i).holds) ∨ ¬ m.Yields) ∨
  m.destructor = .joining ∧ m.send ≠ .exited ∧ ∃ i, 0 < (m.users i).holds

theorem stalledPeer_destroyed : StalledPeer .destroyed := trivial

theorem Yields.held {m : PacketMuxer} (stays : ¬ m.Yields) : 0 < m.send.holds := by
  cases at_pc : m.send <;> simp [Yields, at_pc, SendPc.holds] at stays ⊢

theorem frame_ne_nil (p : ComPacket) : p.fields.flatten ≠ [] := by
  intro none
  have length := congrArg List.length none
  simp [ComPacket.fields, htonl_length] at length

/-- A send thread that has the lock and bytes to write before it gives it back only ever writes. -/
theorem Effect.stays {ids : IdManager} {m m' : PacketMuxer} {action : MuxerAction} (reach : (system ids).Reach m)
    (effect : Effect ids m action m') (permitted : StalledPeer action) (own : action ≠ .destroyed)
    (stays : ¬ m.Yields) : ¬ m'.Yields := by
  have lock := reach_lockInv reach
  cases effect with
  | threw | called | user | destroy => cases permitted
  | destroyLocked | destroyStored | destroyUnlocked | destroyJoined => exact absurd rfl own
  | entered at_pc | hello at_pc | greeted at_pc | locked at_pc | woken at_pc | relocked at_pc | timedOut at_pc
  | unlocked at_pc => simp [Yields, at_pc] at stays
  | continues at_pc | iterates at_pc | visits at_pc => simpa [Yields, at_pc] using stays
  | stops at_pc flag => simp [Yields, at_pc, flag] at stays
  | waits at_pc equal => simp [Yields, at_pc, equal] at stays
  | busy at_pc different =>
    simp only [Yields, at_pc, not_or] at stays
    have calm := lock.calm_of_send at_pc Nat.one_pos rfl
    have queued : m.txQueues.total ≠ 0 := fun none => different ((reach_countInv reach).equal calm none)
    simp [Yields, stays.1, queued]
  | heartBeat at_pc step =>
    obtain ⟨-, -, -, same, -⟩ := step.sending_side
    simpa [Yields, at_pc, same] using stays
  | beaten at_pc =>
    have queued := reach_beats reach at_pc rfl
    simpa [Yields, at_pc, queued] using stays
  | passed at_pc =>
    simp only [Yields, at_pc, not_or] at stays
    have covered := reach_coverInv reach (by simpa using stays.1) [] (by rw [at_pc]; rfl)
    have empty : ∀ type, m.txQueues.get type = [] := by
      intro type
      by_contra queued
      exact absurd (covered type queued) (by simp)
    exact absurd (KeyedLists.total_eq_zero empty) stays.2
  | drained at_pc => simpa [Yields, at_pc] using stays
  | @handed type types packet => exact fun yields => absurd (And.left yields) (frame_ne_nil packet.packet)
  | asserted => exact id
  | skipped at_pc => simpa [Yields, at_pc] using stays
  | failed => cases permitted
  | accepted at_pc =>
    cases permitted
    simpa [Yields, at_pc] using stays
  | interrupted at_pc _ flag =>
    have unset := (reach_writeInv reach).unset (Or.inr ⟨_, at_pc⟩)
    rw [flag] at unset
    cases unset
  | finished at_pc => simpa [Yields, at_pc] using stays
  | @assigned type types ok at_pc =>
    simp only [Yields, at_pc, not_or] at stays
    simp [Yields, stays.1, stays.2]
  | @popped type types packet packets at_pc queue =>
    simp only [Yields, at_pc, not_or] at stays
    have shrunk := m.txQueues.total_set type packets
    rw [queue, List.length_cons] at shrunk
    have more : (m.txQueues.set type packets).total ≠ 0 := by omega
    simp [Yields, stays.1, more]

theorem Effect.stuck {ids : IdManager} {m m' : PacketMuxer} {action : MuxerAction} (reach : (system ids).Reach m)
    (effect : Effect ids m action m') (permitted : StalledPeer action) (stuck : m.Stuck) : m'.Stuck := by
  have lock := reach_lockInv reach
  by_cases own : action = .destroyed
  · subst own
    cases effect with
    | destroyLocked at_pc acquired =>
      have excluded {t : MuxerThread} (other : t ≠ .destructor) : m.holds t = 0 := by
        rw [← lock t]
        exact RecursiveMutex.acquire_excludes acquired other
      rcases stuck with ⟨-, ⟨i, held⟩ | stays⟩ | ⟨joining, -⟩
      · have free : (m.users i).holds = 0 := excluded (t := .user i) (by simp)
        omega
      · have free : m.send.holds = 0 := excluded (t := .send) (by simp)
        have held := Yields.held stays
        omega
      · rw [at_pc] at joining
        cases joining
    | destroyStored at_pc | destroyUnlocked at_pc => simp [Stuck, at_pc] at stuck
    | destroyJoined at_pc exited => simp [Stuck, at_pc, exited] at stuck
  · obtain ⟨users, destructor⟩ := effect.moves_send permitted own
    rcases stuck with ⟨locking, ⟨i, held⟩ | stays⟩ | ⟨joining, working, i, held⟩
    · exact Or.inl ⟨destructor.trans locking, Or.inl ⟨i, users ▸ held⟩⟩
    · exact Or.inl ⟨destructor.trans locking, Or.inr (effect.stays reach permitted own stays)⟩
    · refine Or.inr ⟨destructor.trans joining, ?_, i, users ▸ held⟩
      have out : m.send.holds = 0 := lock.exclusive (t := .user i) (u := .send) held (by simp)
      cases effect with
      | unlocked at_pc => simp [at_pc, SendPc.holds] at out
      | threw | called | user | destroy => cases permitted
      | destroyLocked | destroyStored | destroyUnlocked | destroyJoined => exact absurd rfl own
      | _ => simp

theorem not_canStop {m : PacketMuxer} (cannot : ¬ m.CanStop) : m.Stuck := by
  unfold CanStop at cannot
  split at cannot
  · rename_i locking
    refine Or.inl ⟨locking, ?_⟩
    by_cases free : ∀ i, (m.users i).holds = 0
    · exact Or.inr (fun yields => cannot ⟨free, yields⟩)
    · obtain ⟨i, held⟩ := not_forall.mp free
      exact Or.inl ⟨i, Nat.pos_of_ne_zero held⟩
  · rename_i joining
    obtain ⟨working, held⟩ := not_or.mp cannot
    obtain ⟨i, held⟩ := not_forall.mp held
    exact Or.inr ⟨joining, working, i, Nat.pos_of_ne_zero held⟩
  · exact absurd trivial cannot

/-- Nothing that is left to the two threads frees a stuck destructor. -/
theorem Stuck.forever {ids : IdManager} {m : PacketMuxer} (reach : (system ids).Reach m) (stuck : m.Stuck) :
    ¬ (system ids).CanReach StalledPeer (fun m => m.destructor = .returned) m := by
  refine TransitionSystem.CanReach.trapped (J := fun m => (system ids).Reach m ∧ m.Stuck) ?_ ?_ ⟨reach, stuck⟩
  · intro m inside returned
    simp [Stuck, returned] at inside
  · intro m action m' inside permitted run
    exact ⟨inside.1.next trivial run, (step_effect run).stuck inside.1 permitted inside.2⟩

/-- A send thread that has aborted keeps the lock. -/
theorem alive_of_free {m : PacketMuxer} (free : m.send.holds = 0) (type : PacketType) : m.send ≠ .aborted type := by
  intro dead
  rw [dead] at free
  cases free

section Stops

variable {names : List String} {ids : IdManager} (built : IdManager.ofList names = some ids) {m : PacketMuxer}
  (reach : (system ids).Reach m)

include built reach

/-- The last phase: the flag is set, and the send thread can take the lock. -/
theorem joins (at_pc : m.destructor = .joining) (free : ∀ i, (m.users i).holds = 0) :
    (system ids).CanReach StalledPeer (fun m => m.destructor = .returned) m := by
  have flag := reach_stored reach (by simp [at_pc, DestructorPc.Stored])
  have clear : Clear ids .joining m := ⟨reach, free, at_pc, rfl⟩
  refine (clear.ends built (.inl flag)).trans (fun t ended => ?_)
  obtain ⟨clear, exited | ⟨unset, -⟩⟩ := ended
  · have run : step ids t .destroyed = some { t with destructor := .returned } :=
      (Effect.destroyJoined clear.destructor exited).run (by simp [exited]) (by simp)
    exact .step stalledPeer_destroyed run (.here rfl)
  · have set := reach_stored clear.reach (by simp [clear.destructor, DestructorPc.Stored])
    rw [set] at unset
    cases unset

theorem unlocks (at_pc : m.destructor = .unlocking) :
    (system ids).CanReach StalledPeer (fun m => m.destructor = .returned) m := by
  have lock := reach_lockInv reach
  have own : m.holds .destructor = 1 := by simp [holds, at_pc, DestructorPc.holds]
  obtain ⟨l, released⟩ := RecursiveMutex.release_exists (m := m.txLock) (t := .destructor) (by rw [lock, own]; omega)
  have out : m.holds .send = 0 := lock.exclusive (t := .destructor) (by omega) (by simp)
  have run : step ids m .destroyed = some { m with txLock := l, destructor := .joining } :=
    (Effect.destroyUnlocked at_pc released).run (alive_of_free out) (by simp)
  refine .step stalledPeer_destroyed run (joins built (reach.next trivial run) rfl (fun i => ?_))
  exact lock.exclusive (t := .destructor) (u := .user i) (by omega) (by simp)

theorem stores (at_pc : m.destructor = .storing) :
    (system ids).CanReach StalledPeer (fun m => m.destructor = .returned) m := by
  have out : m.holds .send = 0 :=
    (reach_lockInv reach).exclusive (t := .destructor) (by simp [holds, at_pc, DestructorPc.holds]) (by simp)
  have run : step ids m .destroyed = some { m with transportError := true, destructor := .unlocking }.notify :=
    (Effect.destroyStored at_pc).run (alive_of_free out) (by simp)
  exact .step stalledPeer_destroyed run (unlocks built (reach.next trivial run) (by simp))

theorem locks (at_pc : m.destructor = .locking) (free : ∀ i, (m.users i).holds = 0) (yields : m.Yields) :
    (system ids).CanReach StalledPeer (fun m => m.destructor = .returned) m := by
  have clear : Clear ids .locking m := ⟨reach, free, at_pc, rfl⟩
  refine (clear.ends built (.inr yields)).trans (fun t ended => ?_)
  obtain ⟨clear, ended⟩ := ended
  have out : t.send.holds = 0 := by
    rcases ended with exited | ⟨-, out⟩
    · rw [exited]
      rfl
    · exact out
  obtain ⟨l, acquired⟩ := RecursiveMutex.acquire_exists (m := t.txLock) (t := .destructor) (fun u other => by
    rw [reach_lockInv clear.reach u]
    cases u with
    | send => exact out
    | destructor => exact absurd rfl other
    | user i => exact clear.users i)
  have run : step ids t .destroyed = some { t with txLock := l, destructor := .storing } :=
    (Effect.destroyLocked clear.destructor acquired).run (alive_of_free out) (by simp)
  exact .step stalledPeer_destroyed run (stores built (clear.reach.next trivial run) rfl)

end Stops

/-- From a state in which `~PacketMuxer` has been entered, the send thread and the destructor can bring it to its
end against a peer that takes no byte exactly if nothing stands in its way. -/
theorem stalled_destructor_iff (names : List String) (ids : IdManager) (built : IdManager.ofList names = some ids)
    (m : PacketMuxer) (reach : (system ids).Reach m) (entered : m.destructor ≠ .notCalled) :
    (system ids).CanReach StalledPeer (fun m => m.destructor = .returned) m ↔ m.CanStop := by
  constructor
  · intro can
    by_contra cannot
    exact (not_canStop cannot).forever reach can
  · intro may
    cases at_pc : m.destructor with
    | notCalled => exact absurd at_pc entered
    | locking =>
      simp only [CanStop, at_pc] at may
      exact locks built reach at_pc may.1 may.2
    | storing => exact stores built reach at_pc
    | unlocking => exact unlocks built reach at_pc
    | joining =>
      simp only [CanStop, at_pc] at may
      rcases may with exited | free
      · have run : step ids m .destroyed = some { m with destructor := .returned } :=
          (Effect.destroyJoined at_pc exited).run (by simp [exited]) (by simp)
        exact .step stalledPeer_destroyed run (.here rfl)
      · exact joins built reach at_pc free
    | returned => exact .here at_pc

/-- The Hello packet is in hand when the destructor is entered. -/
def destroysWriting : List MuxerAction := List.replicate 9 .send ++ [.iterate [1], .send, .send, .destroy]

theorem stalled_destructor_hangs : ∃ ids : IdManager, IdManager.ofList [] = some ids ∧
    ¬ ∀ m, (system ids).Reach m → m.destructor ≠ .notCalled →
      (system ids).CanReach StalledPeer (fun m => m.destructor = .returned) m := by
  obtain ⟨ids, built, m, reach, place⟩ : ∃ ids, IdManager.ofList [] = some ids ∧ ∃ m, (system ids).Reach m ∧
      (m.destructor, m.send.unwritten) = (.locking, some [0, 0, 0, 1, 0, 0, 0, 1, 254]) :=
    ⟨_, rfl, TransitionSystem.ReachUnder.start.computed (fun m : PacketMuxer => (m.destructor, m.send.unwritten))
      destroysWriting (fun _ _ _ => trivial) (by decide +kernel)⟩
  obtain ⟨locking, unwritten⟩ := Prod.mk.inj place
  refine ⟨ids, built, fun all => ?_⟩
  have writes : ¬ m.Yields := by
    cases at_pc : m.send <;> simp_all [Yields, SendPc.unwritten]
  have stuck : m.Stuck := Or.inl ⟨locking, Or.inr writes⟩
  exact stuck.forever reach (all m reach (by simp [locking]))

theorem stalled_destructor_iff_writing : ∃ (ids : IdManager) (m : PacketMuxer), IdManager.ofList [] = some ids ∧
    m.destructor = .locking ∧
    ((system ids).CanReach StalledPeer (fun m => m.destructor = .returned) m ↔ m.CanStop) := by
  obtain ⟨ids, built, m, reach, locking⟩ : ∃ ids, IdManager.ofList [] = some ids ∧ ∃ m, (system ids).Reach m ∧
      m.destructor = .locking :=
    ⟨_, rfl, TransitionSystem.ReachUnder.start.computed PacketMuxer.destructor destroysWriting (fun _ _ _ => trivial)
      (by decide +kernel)⟩
  exact ⟨ids, m, built, locking, stalled_destructor_iff [] ids built m reach (by simp [locking])⟩

end PacketMuxer

end PacketComms
