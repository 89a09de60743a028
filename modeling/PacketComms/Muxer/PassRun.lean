import PacketComms.Muxer.Pass
import PacketComms.Muxer.SendPass

namespace PacketComms

/-- The answers of the transport that a step takes. -/
def MuxerAction.answers : MuxerAction → List IoResult
  | .write answer => [answer]
  | _ => []

namespace PacketMuxer

/-- The queues without the addresses of the packets. -/
def queued (m : PacketMuxer) : PacketType → List ComPacket := fun type => (m.txQueues.get type).map (·.packet)

/-- The packets popped so far, without their addresses. -/
def popped (m : PacketMuxer) : List ComPacket := (pops m.log).map (·.packet)

/-- The rest of a pass from `packets.pop()` on, with `transportError` noted. -/
def popFrom (m : PacketMuxer) (transportError : Bool) (type : PacketType) (types : List PacketType)
    (answers : List IoResult) : Passed :=
  (sendPass transportError (m.numSent + 1) (Function.update m.queued type (m.queued type).tail) (type :: types)
    answers).behind [] ((m.queued type).take 1)

/-- The rest of a pass from `sendPacket` on, where `ok` says how its earlier writes ended and `w` how the others do. -/
def frameFrom (m : PacketMuxer) (ok : Bool) (type : PacketType) (types : List PacketType) (w : Written) : Passed :=
  match w.status with
  | .returned ok' => (m.popFrom (!(ok && ok')) type types w.rest).behind w.accepted []
  | status => ⟨w.accepted, [], m.queued, m.transportError, m.numSent, status, w.rest⟩

/-- The rest of the pass that the send thread is in. -/
def passFrom (m : PacketMuxer) (answers : List IoResult) : Passed :=
  match m.send with
  | .visit types => sendPass m.transportError m.numSent m.queued types answers
  | .drain type types => sendPass m.transportError m.numSent m.queued (type :: types) answers
  | .write type types fields ok => m.frameFrom ok type types (writeFields false fields answers)
  | .assign type types ok => m.popFrom (!ok) type types answers
  | .pop type types => m.popFrom m.transportError type types answers
  | .aborted _ => ⟨[], [], m.queued, m.transportError, m.numSent, .aborted, answers⟩
  | _ => ⟨[], [], m.queued, m.transportError, m.numSent, .returned true, answers⟩

theorem writeFields_skip (fields : List (List Byte)) (answers : List IoResult) :
    writeFields false ([] :: fields) answers = writeFields false fields answers := by
  have skipped : writeBytes false [] answers = ⟨[], 0, .returned true, answers⟩ := by simp [writeBytes]
  simp only [writeFields, Written.andThen, skipped, List.nil_append, Bool.true_and]
  generalize writeFields false fields answers = w
  obtain ⟨accepted, size, status, rest⟩ := w
  cases status <;> rfl

theorem writeFields_count {buffer : List Byte} (nonempty : buffer ≠ []) (n : Nat) (fields : List (List Byte))
    (answers : List IoResult) :
    writeFields false (buffer :: fields) (.count n :: answers) =
      { writeFields false (buffer.drop n :: fields) answers with
        accepted := buffer.take n ++ (writeFields false (buffer.drop n :: fields) answers).accepted } := by
  obtain ⟨byte, buffer, rfl⟩ := List.exists_cons_of_ne_nil nonempty
  simp only [writeFields, Written.andThen, writeBytes, Bool.false_eq_true, if_false]
  generalize writeBytes false ((byte :: buffer).drop n) answers = w
  obtain ⟨accepted, size, status, rest⟩ := w
  cases status <;> simp

theorem writeFields_error {buffer : List Byte} (nonempty : buffer ≠ []) (fields : List (List Byte))
    (answers : List IoResult) :
    writeFields false (buffer :: fields) (.error :: answers) =
      { writeFields false fields answers with
        status := match (writeFields false fields answers).status with
          | .returned _ => .returned false
          | status => status } := by
  obtain ⟨byte, buffer, rfl⟩ := List.exists_cons_of_ne_nil nonempty
  generalize fields_eq : writeFields false fields answers = w
  obtain ⟨accepted, size, status, rest⟩ := w
  cases status <;> simp [writeFields, Written.andThen, writeBytes, fields_eq]

section Frame

variable (m : PacketMuxer) (type : PacketType) (types : List PacketType)

theorem frameFrom_accepted (ok : Bool) (bytes : List Byte) (w : Written) :
    m.frameFrom ok type types { w with accepted := bytes ++ w.accepted } =
      (m.frameFrom ok type types w).behind bytes [] := by
  obtain ⟨accepted, size, status, rest⟩ := w
  cases status <;> simp [frameFrom, Passed.behind]

theorem frameFrom_error (ok : Bool) (w : Written) :
    m.frameFrom ok type types { w with
      status := match w.status with
        | .returned _ => .returned false
        | status => status } = m.frameFrom false type types w := by
  obtain ⟨accepted, size, status, rest⟩ := w
  cases status <;> simp [frameFrom]

/-- The pass goes on with the front of the queue. -/
theorem frameFrom_front {packet : ComPacket} {packets : List ComPacket} (front : m.queued type = packet :: packets)
    (flag : m.transportError = false) (valid : packet.type ≠ IdManager.invalidPacket) (answers : List IoResult) :
    sendPass m.transportError m.numSent m.queued (type :: types) answers =
      m.frameFrom true type types (writeFields false packet.fields answers) := by
  rw [flag, sendPass_cons front valid, frameFrom]
  cases (writeFields false packet.fields answers).status <;> simp [popFrom, front, flag]

end Frame

/-- While the send thread has the lock, no call of `emplacePacket` by another thread takes a step. -/
theorem LockInv.no_post {m m' : PacketMuxer} (inv : LockInv m) (own : 0 < m.holds .send) {i : Nat} {alloc : Bool}
    {pc : PostPc} (step : Emplaced m (.user i) alloc (m.users i) pc m') : False := by
  have free : (m.users i).holds = 0 := inv.exclusive (u := .user i) own (by simp)
  generalize m.users i = before at step free
  cases step with
  | locked acquired =>
    have none := RecursiveMutex.acquire_excludes acquired (u := .send) (by simp)
    rw [inv] at none
    omega
  | threw | emplaced | signalled | unlocked => cases free

/-- A step within a pass: what it moves is ahead of what the rest of the pass moves. -/
theorem Effect.passFrom {ids : IdManager} {m m' : PacketMuxer} {action : MuxerAction} (lock : LockInv m)
    (write : WriteInv m) (effect : Effect ids m action m') (passing : m.send.pass ≠ none) :
    ∃ bytes packets, m'.wire = m.wire ++ bytes ∧ m'.popped = m.popped ++ packets ∧
      ∀ answers, m.passFrom (action.answers ++ answers) = (m'.passFrom answers).behind bytes packets := by
  have own : 0 < m.holds .send := by
    obtain ⟨types, some⟩ := Option.ne_none_iff_exists'.mp passing
    rw [holds, SendPc.pass_holds some]
    exact Nat.one_pos
  have still {m' : PacketMuxer} (wire : m'.wire = m.wire) (popped : m'.popped = m.popped)
      (same : ∀ answers, m.passFrom (action.answers ++ answers) = m'.passFrom answers) :
      ∃ bytes packets, m'.wire = m.wire ++ bytes ∧ m'.popped = m.popped ++ packets ∧
        ∀ answers, m.passFrom (action.answers ++ answers) = (m'.passFrom answers).behind bytes packets :=
    ⟨[], [], by rw [wire, List.append_nil], by rw [popped, List.append_nil], same⟩
  cases effect with
  | threw | called | destroy | destroyLocked | destroyUnlocked | destroyJoined => exact still rfl rfl (fun _ => rfl)
  | user step => exact absurd step (lock.no_post own)
  | destroyStored at_pc =>
    have free := lock.exclusive (u := .destructor) own (by simp)
    simp [holds, at_pc, DestructorPc.holds] at free
  | passed at_pc | visits at_pc | assigned at_pc =>
    refine still rfl rfl (fun answers => ?_)
    simp only [PacketMuxer.passFrom, at_pc]
    rfl
  | @drained type types at_pc reason =>
    refine still rfl rfl (fun answers => ?_)
    simp only [PacketMuxer.passFrom, at_pc, MuxerAction.answers, List.nil_append]
    rcases reason with flag | empty
    · rw [flag, sendPass_stopped, sendPass_stopped]
      rfl
    · exact sendPass_empty (by simp [queued, empty]) types answers
  | @handed type types packet packets at_pc flag queue valid =>
    refine still rfl (by simp [PacketMuxer.popped]) (fun answers => ?_)
    have front : m.queued type = packet.packet :: packets.map (·.packet) := by simp [queued, queue]
    simp only [PacketMuxer.passFrom, at_pc, MuxerAction.answers, List.nil_append,
      frameFrom_front m type types front flag valid]
    rfl
  | @asserted type types packet packets at_pc flag queue invalid =>
    refine still rfl (by simp [PacketMuxer.popped]) (fun answers => ?_)
    have front : m.queued type = packet.packet :: packets.map (·.packet) := by simp [queued, queue]
    simp only [PacketMuxer.passFrom, at_pc, MuxerAction.answers, List.nil_append, flag, sendPass_invalid front invalid]
    rfl
  | skipped at_pc =>
    refine still rfl rfl (fun answers => ?_)
    simp only [PacketMuxer.passFrom, at_pc, MuxerAction.answers, List.nil_append, writeFields_skip]
    rfl
  | failed at_pc nonempty =>
    refine still rfl rfl (fun answers => ?_)
    simp only [PacketMuxer.passFrom, at_pc, MuxerAction.answers, List.cons_append, List.nil_append,
      writeFields_error nonempty, frameFrom_error]
    rfl
  | @accepted type types buffer fields ok n at_pc nonempty flag =>
    refine ⟨buffer.take n, [], rfl, by simp [PacketMuxer.popped], fun answers => ?_⟩
    simp only [PacketMuxer.passFrom, at_pc, MuxerAction.answers, List.cons_append, List.nil_append,
      writeFields_count nonempty, frameFrom_accepted]
    rfl
  | interrupted at_pc _ flag =>
    have unset := write.unset (Or.inr ⟨_, at_pc⟩)
    rw [flag] at unset
    cases unset
  | finished at_pc =>
    refine still rfl rfl (fun answers => ?_)
    simp only [PacketMuxer.passFrom, at_pc, MuxerAction.answers, List.nil_append, writeFields, frameFrom, Bool.and_true,
      Passed.behind_nil]
    rfl
  | @popped type types packet packets at_pc queue =>
    refine ⟨[], [packet.packet], by simp, by simp [PacketMuxer.popped], fun answers => ?_⟩
    have moved : Function.update m.queued type (packets.map (·.packet)) =
        fun other => (Function.update m.txQueues.get type packets other).map (·.packet) := by
      funext other
      by_cases same : other = type
      · subst same
        simp
      · simp [same, queued]
    simp only [PacketMuxer.passFrom, at_pc, MuxerAction.answers, List.nil_append, popFrom, queued, queue, List.map_cons,
      List.tail_cons, List.take_succ_cons, List.take_zero]
    rw [moved]
    rfl
  | _ => simp_all [SendPc.pass]

/-- A run of all threads from within a pass to its end, with the answers of the transport. -/
inductive PassRun (ids : IdManager) : PacketMuxer → List IoResult → PacketMuxer → Prop
  | ended {m} : m.send = .test → PassRun ids m [] m
  | step {m m₁ m' action answers} : m.send.pass ≠ none → step ids m action = some m₁ → PassRun ids m₁ answers m' →
      PassRun ids m (action.answers ++ answers) m'

/-- The threads together do in a pass what `sendPass` does as a call. -/
theorem PassRun.computes {ids : IdManager} {m m' : PacketMuxer} {answers : List IoResult} (reach : (system ids).Reach m)
    (run : PassRun ids m answers m') :
    (m.passFrom answers).status = .returned true ∧ (m.passFrom answers).rest = [] ∧
    m'.wire = m.wire ++ (m.passFrom answers).accepted ∧ m'.popped = m.popped ++ (m.passFrom answers).sent ∧
    m'.queued = (m.passFrom answers).queues ∧ m'.transportError = (m.passFrom answers).transportError ∧
    m'.numSent = (m.passFrom answers).numSent := by
  induction run with
  | ended at_pc => simp [passFrom, at_pc]
  | step passing run _ ih =>
    obtain ⟨bytes, packets, wire, popped, same⟩ :=
      (step_effect run).passFrom (reach_lockInv reach) (reach_writeInv reach) passing
    obtain ⟨status, rest, wire', popped', queues, flag, numSent⟩ := ih (reach.next trivial run)
    rw [same]
    refine ⟨status, rest, ?_, ?_, queues, flag, numSent⟩
    · rw [wire', wire, List.append_assoc]
      rfl
    · rw [popped', popped, List.append_assoc]
      rfl

end PacketMuxer

end PacketComms
