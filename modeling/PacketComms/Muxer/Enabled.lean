import PacketComms.Muxer.Effect

namespace PacketComms.PacketMuxer

/-- Each thing a step of `emplacePacket` can do is done. -/
theorem Emplaced.run {m m' : PacketMuxer} {t : MuxerThread} {alloc : Bool} {pc pc' : PostPc}
    (step : Emplaced m t alloc pc pc' m') : m.emplaceStep t alloc pc = some (pc', m') := by
  cases step with
  | locked lock => simp [emplaceStep, lock]
  | threw failed => simp [emplaceStep, failed]
  | emplaced allocated built => simp [emplaceStep, allocated, built]
  | signalled => rfl
  | unlocked lock => simp [emplaceStep, lock]

/-- A step shows that the process has not been aborted, -/
theorem alive_of_step {ids : IdManager} {m m' : PacketMuxer} {action : MuxerAction}
    (run : step ids m action = some m') (type : PacketType) : m.send ≠ .aborted type := by
  intro dead
  unfold step at run
  rw [dead] at run
  cases run

/-- and a call that the thread was not in one. -/
theorem idle_of_post {ids : IdManager} {m m' : PacketMuxer} {i : Nat} {name : String} {args : PacketArgs}
    (run : step ids m (.post i name args) = some m') : m.users i = .idle := by
  unfold step at run
  split at run <;> simp_all
  split at run <;> simp_all

/-- Where the threads are makes no difference to a step of `emplacePacket`. -/
theorem Emplaced.setUsers {m m' : PacketMuxer} {t : MuxerThread} {alloc : Bool} {pc pc' : PostPc}
    (step : Emplaced m t alloc pc pc' m') (users : Nat → PostPc) :
    Emplaced { m with users := users } t alloc pc pc' { m' with users := users } := by
  cases step with
  | locked lock => exact .locked lock
  | threw failed => exact .threw failed
  | emplaced allocated built => exact .emplaced allocated built
  | signalled =>
    have posted : ({ m with users := users } : PacketMuxer).signalPacketPosted =
        { m.signalPacketPosted with users := users } := by
      cases at_pc : m.send <;> simp only [signalPacketPosted, notify, at_pc]
    rw [← posted]
    exact .signalled
  | unlocked lock => exact .unlocked lock

section Alive

variable {ids : IdManager} {m : PacketMuxer} (alive : ∀ type, m.send ≠ .aborted type)
include alive

theorem step_post {i : Nat} (name : String) (args : PacketArgs) (idle : m.users i = .idle) :
    step ids m (.post i name args) = some ((ids.toId name).elim m (fun type =>
      { m with users := Function.update m.users i (.locking name type args) })) := by
  cases at_pc : m.send with
  | aborted type => exact absurd at_pc (alive type)
  | _ =>
    unfold step
    rw [at_pc]
    simp only [idle]
    cases ids.toId name <;> rfl

theorem step_user (i : Nat) (alloc : Bool) : step ids m (.user i alloc) =
    (m.emplaceStep (.user i) alloc (m.users i)).map (fun (pc, m) =>
      { m with users := Function.update m.users i pc }) := by
  cases at_pc : m.send with
  | aborted type => exact absurd at_pc (alive type)
  | _ =>
    unfold step
    rw [at_pc]

theorem step_own {i : Nat} {alloc : Bool} {pc pc' : PostPc} {next : PacketMuxer}
    (emplace : Emplaced m (.user i) alloc pc pc' next) (users : Nat → PostPc) :
    step ids { m with users := Function.update users i pc } (.user i alloc) =
      some { next with users := Function.update users i pc' } := by
  have run := (emplace.setUsers (Function.update users i pc)).run
  rw [step_user (m := { m with users := Function.update users i pc }) alive]
  simp only [Function.update_self, run, Option.map_some, Function.update_idem]

theorem step_send : step ids m .send = m.sendStep ids := by
  cases at_pc : m.send with
  | aborted type => exact absurd at_pc (alive type)
  | _ =>
    unfold step
    rw [at_pc]

theorem step_write (answer : IoResult) : step ids m (.write answer) = m.writeStep answer := by
  cases at_pc : m.send with
  | aborted type => exact absurd at_pc (alive type)
  | _ =>
    unfold step
    rw [at_pc]

theorem step_destroy (uncalled : m.destructor = .notCalled) :
    step ids m .destroy = some { m with destructor := .locking } := by
  cases at_pc : m.send with
  | aborted type => exact absurd at_pc (alive type)
  | _ =>
    unfold step
    rw [at_pc]
    simp only [uncalled]

theorem step_destroyed : step ids m .destroyed = m.destructorStep := by
  cases at_pc : m.send with
  | aborted type => exact absurd at_pc (alive type)
  | _ =>
    unfold step
    rw [at_pc]

end Alive

/-- Each effect is that of a step, as long as the process has not been aborted, and for a call of
`emplacePacket` if the thread is not in one already. -/
theorem Effect.run {ids : IdManager} {m m' : PacketMuxer} {action : MuxerAction} (effect : Effect ids m action m')
    (alive : ∀ type, m.send ≠ .aborted type)
    (idle : ∀ i name args, action = .post i name args → m.users i = .idle) : step ids m action = some m' := by
  cases effect with
  | threw refused => rw [step_post alive _ _ (idle _ _ _ rfl), refused, Option.elim_none]
  | called free issued => rw [step_post alive _ _ free, issued, Option.elim_some]
  | user emplace => rw [step_user alive, emplace.run, Option.map_some]
  | @hello pc pc' next at_pc emplace | @heartBeat pc pc' next at_pc emplace =>
    rw [step_send alive]
    have run := emplace.run
    cases pc with
    | idle => cases emplace
    | _ => simp [sendStep, at_pc, run]
  | woken at_pc => simp [step, at_pc]
  | iterates at_pc perm => simp [step, at_pc, perm]
  | @failed type types buffer fields ok at_pc more | @accepted type types buffer fields ok n at_pc more flag
  | @interrupted type types buffer fields ok n at_pc more flag =>
    rw [step_write alive]
    cases buffer with
    | nil => exact absurd rfl more
    | cons => simp_all [writeStep]
  | @destroy uncalled =>
    exact step_destroy alive uncalled
  | destroyLocked at_pc lock | destroyUnlocked at_pc lock =>
    rw [step_destroyed alive]
    simp [destructorStep, at_pc, lock]
  | destroyStored at_pc =>
    rw [step_destroyed alive]
    simp [destructorStep, at_pc]
  | destroyJoined at_pc exited =>
    rw [step_destroyed alive]
    simp [destructorStep, at_pc, exited]
  | entered at_pc fact | locked at_pc fact | continues at_pc fact | stops at_pc fact | busy at_pc fact
  | relocked at_pc fact | unlocked at_pc fact | popped at_pc fact =>
    rw [step_send alive]
    simp [sendStep, at_pc, fact]
  | waits at_pc equal lock =>
    rw [step_send alive]
    simp [sendStep, at_pc, equal, lock]
  | timedOut at_pc lock control =>
    rw [step_send alive]
    simp [sendStep, at_pc, lock, control]
  | handed at_pc flag front kind | asserted at_pc flag front kind =>
    rw [step_send alive]
    simp [sendStep, at_pc, flag, front, kind]
  | @drained type types at_pc reason =>
    rw [step_send alive]
    cases flag : m.transportError with
    | true => simp [sendStep, at_pc, flag]
    | false =>
      have empty : m.txQueues.get type = [] := reason.resolve_left (by simp [flag])
      simp [sendStep, at_pc, flag, empty]
  | greeted at_pc | beaten at_pc | passed at_pc | visits at_pc | skipped at_pc | finished at_pc | assigned at_pc =>
    rw [step_send alive]
    simp [sendStep, at_pc]

theorem Effect.run_send {ids : IdManager} {m m' : PacketMuxer} (effect : Effect ids m .send m') :
    step ids m .send = some m' := by
  refine effect.run (fun type dead => ?_) nofun
  cases effect <;> simp_all

end PacketComms.PacketMuxer
