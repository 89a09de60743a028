import PacketComms.Muxer.Accounting
import PacketComms.Muxer.Writing

namespace PacketComms

/-- The error of the packet in hand. `none`: no packet is in hand, or `m_transportError` has
already been assigned for it. -/
def SendPc.intact : SendPc → Option Bool
  | .write _ _ _ ok | .assign _ _ ok => some ok
  | _ => none

theorem SendPc.intact_unwritten {pc : SendPc} {ok : Bool} (hand : pc.intact = some ok) :
    ∃ bytes, pc.unwritten = some bytes := by
  cases pc <;> simp_all [SendPc.intact, SendPc.unwritten]

namespace PacketMuxer

@[simp] theorem notify_intact (m : PacketMuxer) : m.notify.send.intact = m.send.intact :=
  m.notify_send.congr SendPc.intact (fun _ => rfl)

/-- A write has failed: one of the packet in hand, or one of a packet that was handed to
`sendPacket` before. -/
def Failed (m : PacketMuxer) : Prop :=
  match m.send.intact with
  | some ok => ok = false
  | none => m.send.unwritten = none ∧ m.written ≠ hands m.log

/-- What a failure depends on. -/
theorem failed_congr {m m' : PacketMuxer} (intact : m'.send.intact = m.send.intact)
    (unwritten : m'.send.unwritten = m.send.unwritten) (written : m'.written = m.written)
    (log : hands m'.log = hands m.log) : m'.Failed ↔ m.Failed := by
  unfold Failed
  rw [intact, unwritten, written, log]

/-- What `emplacePacket` leaves alone of the packet in hand. -/
theorem Emplaced.intact {m m' : PacketMuxer} {t : MuxerThread} {alloc : Bool} {pc pc' : PostPc}
    (step : Emplaced m t alloc pc pc' m') : m'.send.intact = m.send.intact := by
  cases step with
  | signalled => simp [signalPacketPosted]
  | locked | threw | emplaced | unlocked => rfl

/-- Exactly a write that fails makes a failure, and it stays one. -/
theorem Effect.failed_iff {ids : IdManager} {m m' : PacketMuxer} {action : MuxerAction} (hand : HandInv m)
    (write : WriteInv m) (effect : Effect ids m action m') : m'.Failed ↔ m.Failed ∨ action = .write .error := by
  have quiet (other : action ≠ .write .error) (same : m'.Failed ↔ m.Failed) :
      m'.Failed ↔ m.Failed ∨ action = .write .error := by simp [other, same]
  cases effect with
  | threw => exact quiet (by simp) Iff.rfl
  | called | destroy | destroyLocked | destroyUnlocked | destroyJoined =>
    exact quiet (by simp) (failed_congr rfl rfl rfl rfl)
  | user step =>
    obtain ⟨unwritten, log, written, -⟩ := step.sending_side
    exact quiet (by simp) (failed_congr step.intact unwritten written log)
  | hello at_pc step | heartBeat at_pc step =>
    obtain ⟨-, log, written, -⟩ := step.sending_side
    exact quiet (by simp) (failed_congr (by rw [at_pc]; rfl) (by rw [at_pc]; rfl) written log)
  | destroyStored => exact quiet (by simp) (failed_congr (by simp) (by simp) (by simp) (by simp))
  | handed at_pc flag =>
    have even := write.even (by rw [at_pc]; rfl) flag
    simp [Failed, SendPc.intact, at_pc, even]
  | asserted at_pc flag =>
    have even := write.even (by rw [at_pc]; rfl) flag
    simp [Failed, SendPc.intact, SendPc.unwritten, at_pc, even]
  | failed at_pc => simp [Failed, SendPc.intact]
  | accepted at_pc | skipped at_pc | finished at_pc => simp [Failed, SendPc.intact, at_pc]
  | interrupted at_pc _ flag =>
    rw [(write.calm _ (by rw [at_pc]; rfl)).1] at flag
    cases flag
  | @assigned type types ok at_pc =>
    obtain ⟨packet, packets, before, queue, log, -, -⟩ := hand.busy type (by rw [at_pc]; rfl)
    obtain ⟨-, written⟩ := write.calm [] (by rw [at_pc]; rfl)
    cases ok <;> simp [Failed, SendPc.intact, SendPc.unwritten, at_pc, written, log, queue]
  | popped at_pc => simp [Failed, SendPc.intact, SendPc.unwritten, at_pc]
  | entered at_pc | greeted at_pc | locked at_pc | continues at_pc | stops at_pc | waits at_pc | busy at_pc
  | woken at_pc | relocked at_pc | timedOut at_pc | beaten at_pc | iterates at_pc | passed at_pc | visits at_pc
  | drained at_pc | unlocked at_pc =>
    exact quiet (by simp) (failed_congr (by rw [at_pc]; rfl) (by rw [at_pc]; rfl) rfl rfl)

/-- Over a whole run: a failure is there exactly if some write failed. -/
theorem run_failed_iff {ids : IdManager} {actions : List MuxerAction} {m m' : PacketMuxer}
    (reach : (system ids).Reach m)
    (run : (system ids).run m actions = some m') : m'.Failed ↔ m.Failed ∨ .write .error ∈ actions := by
  induction actions generalizing m with
  | nil =>
    cases Option.some.inj run
    simp
  | cons action actions ih =>
    obtain ⟨middle, step, rest⟩ := Option.bind_eq_some_iff.mp run
    have first := (step_effect step).failed_iff (reach_handInv reach) (reach_writeInv reach)
    rw [ih (reach.next trivial step) rest, first, List.mem_cons, or_assoc]
    exact or_congr_right (or_congr_left eq_comm)

/-- What has been accepted behind the frames that were written completely: a part of the packet
in hand, or, after a failure, of the last packet that was handed over. -/
def Remains (m : PacketMuxer) (part : List Byte) : Prop :=
  match m.send.intact with
  | some true => ∀ p, (hands m.log).getLast? = some p → part ++ m.send.unwritten.getD [] = p.packet.frame
  | some false => ∀ p, (hands m.log).getLast? = some p →
      part.length + (m.send.unwritten.getD []).length < p.packet.frame.length
  | none => (m.written = hands m.log → part = []) ∧
      ∀ p, hands m.log = m.written ++ [p] → m.send.unwritten = none → part.length < p.packet.frame.length

/-- The wire holds the frames of the packets that were written completely, and less than one more. -/
def SentInv (m : PacketMuxer) : Prop :=
  ∃ part, m.wire = ComPacket.code.stream (m.written.map (·.packet)) ++ part ∧ m.Remains part

theorem SentInv.congr {m m' : PacketMuxer} (inv : SentInv m) (intact : m'.send.intact = m.send.intact)
    (unwritten : m'.send.unwritten = m.send.unwritten) (written : m'.written = m.written)
    (log : hands m'.log = hands m.log) (wire : m'.wire = m.wire) : SentInv m' := by
  obtain ⟨part, split, remains⟩ := inv
  refine ⟨part, by rw [wire, written]; exact split, ?_⟩
  unfold Remains at remains ⊢
  rwa [intact, unwritten, written, log]

theorem Effect.sentInv {ids : IdManager} {m m' : PacketMuxer} {action : MuxerAction} (hand : HandInv m)
    (write : WriteInv m) (inv : SentInv m) (effect : Effect ids m action m') : SentInv m' := by
  cases effect with
  | threw => exact inv
  | called | destroy | destroyLocked | destroyUnlocked | destroyJoined => exact inv.congr rfl rfl rfl rfl rfl
  | user step =>
    obtain ⟨unwritten, log, written, -, wire, -⟩ := step.sending_side
    exact inv.congr step.intact unwritten written log wire
  | hello at_pc step | heartBeat at_pc step =>
    obtain ⟨-, log, written, -, wire, -⟩ := step.sending_side
    exact inv.congr (by rw [at_pc]; rfl) (by rw [at_pc]; rfl) written log wire
  | destroyStored => exact inv.congr (by simp) (by simp) (by simp) (by simp) (by simp)
  | @handed type types packet packets at_pc flag =>
    obtain ⟨part, split, remains⟩ := inv
    have even := write.even (by rw [at_pc]; rfl) flag
    simp only [Remains, SendPc.intact, at_pc] at remains
    refine ⟨[], by rw [split, remains.1 even], ?_⟩
    intro p last
    have same : packet = p := by simpa using last
    subst same
    rfl
  | asserted at_pc flag =>
    obtain ⟨part, split, remains⟩ := inv
    have even := write.even (by rw [at_pc]; rfl) flag
    simp only [Remains, SendPc.intact, at_pc] at remains
    exact ⟨[], by rw [split, remains.1 even], fun _ => rfl, by simp [SendPc.unwritten]⟩
  | @failed type types buffer fields ok at_pc nonempty =>
    obtain ⟨part, split, remains⟩ := inv
    refine ⟨part, split, ?_⟩
    intro p last
    have positive := List.length_pos_of_ne_nil nonempty
    cases ok with
    | true =>
      simp only [Remains, SendPc.intact, SendPc.unwritten, at_pc] at remains
      have whole := congrArg List.length (remains p last)
      simp only [Option.getD_some, List.flatten_cons, List.length_append] at whole
      simp only [SendPc.unwritten, Option.getD_some]
      omega
    | false =>
      simp only [Remains, SendPc.intact, SendPc.unwritten, at_pc] at remains
      have less := remains p last
      simp only [Option.getD_some, List.flatten_cons, List.length_append] at less
      simp only [SendPc.unwritten, Option.getD_some]
      omega
  | @accepted type types buffer fields ok n at_pc nonempty flag =>
    obtain ⟨part, split, remains⟩ := inv
    refine ⟨part ++ buffer.take n, by simp [split], ?_⟩
    have cut := List.take_append_drop n buffer
    cases ok with
    | true =>
      simp only [Remains, SendPc.intact, SendPc.unwritten, at_pc] at remains ⊢
      intro p last
      rw [← remains p last]
      simp only [Option.getD_some, List.flatten_cons, List.append_assoc]
      rw [← List.append_assoc (buffer.take n), cut]
    | false =>
      simp only [Remains, SendPc.intact, SendPc.unwritten, at_pc] at remains ⊢
      intro p last
      have less := remains p last
      have lengths := congrArg List.length cut
      simp only [Option.getD_some, List.flatten_cons, List.length_append] at less lengths ⊢
      omega
  | interrupted at_pc _ flag =>
    rw [(write.calm _ (by rw [at_pc]; rfl)).1] at flag
    cases flag
  | skipped at_pc | finished at_pc => exact inv.congr (by rw [at_pc]; rfl) (by rw [at_pc]; rfl) rfl rfl rfl
  | @assigned type types ok at_pc =>
    obtain ⟨part, split, remains⟩ := inv
    obtain ⟨packet, packets, before, queue, log, -, -⟩ := hand.busy type (by rw [at_pc]; rfl)
    obtain ⟨-, written⟩ := write.calm [] (by rw [at_pc]; rfl)
    have last : (hands m.log).getLast? = some packet := by simp [log]
    cases ok with
    | true =>
      simp only [Remains, SendPc.intact, SendPc.unwritten, at_pc] at remains
      have whole := remains packet last
      refine ⟨[], ?_, fun _ => rfl, ?_⟩
      · simp only [Option.getD_some, List.append_nil] at whole
        simp [split, queue, whole, ComPacket.code]
      · intro p more
        simp [written, log, queue] at more
    | false =>
      simp only [Remains, SendPc.intact, SendPc.unwritten, at_pc] at remains
      have less := remains packet last
      refine ⟨part, split, ?_, ?_⟩
      · intro all
        simp [written, log] at all
      · intro p more _
        have same : packet = p := by simpa [written, log] using more
        subst same
        simpa using less
  | popped at_pc => exact inv.congr (by rw [at_pc]; rfl) (by rw [at_pc]; rfl) rfl (hands_popped ..) rfl
  | entered at_pc | greeted at_pc | locked at_pc | continues at_pc | stops at_pc | waits at_pc | busy at_pc
  | woken at_pc | relocked at_pc | timedOut at_pc | beaten at_pc | iterates at_pc | passed at_pc | visits at_pc
  | drained at_pc | unlocked at_pc =>
    exact inv.congr (by rw [at_pc]; rfl) (by rw [at_pc]; rfl) rfl rfl rfl

theorem reach_sentInv {ids : IdManager} {C : PacketMuxer → MuxerAction → Prop} {m : PacketMuxer}
    (reach : (system ids).ReachUnder C m) : SentInv m := by
  refine reach.invariant ⟨[], rfl, fun _ => rfl, ?_⟩ ?_
  · intro p more
    simp [system, hands] at more
  · exact fun before inv _ run =>
      (step_effect run).sentInv (reach_handInv before) (reach_writeInv before) inv

/-- At most one packet was handed over without being written completely. -/
theorem Effect.close {ids : IdManager} {m m' : PacketMuxer} {action : MuxerAction} (write : WriteInv m)
    (inv : (hands m.log).length ≤ m.written.length + 1) (effect : Effect ids m action m') :
    (hands m'.log).length ≤ m'.written.length + 1 := by
  cases effect with
  | user step | hello _ step | heartBeat _ step =>
    obtain ⟨-, log, written, -⟩ := step.sending_side
    simpa [log, written] using inv
  | handed at_pc flag | asserted at_pc flag =>
    have even := write.even (by rw [at_pc]; rfl) flag
    simp [even]
  | @assigned type types ok =>
    cases ok with
    | true => simp only [if_true, List.length_append]; omega
    | false => exact inv
  | popped => simpa using inv
  | destroyStored => simpa using inv
  | _ => exact inv

theorem reach_close {ids : IdManager} {C : PacketMuxer → MuxerAction → Prop} {m : PacketMuxer}
    (reach : (system ids).ReachUnder C m) : (hands m.log).length ≤ m.written.length + 1 :=
  reach.invariant (Nat.zero_le _) (fun before inv _ run => (step_effect run).close (reach_writeInv before) inv)

/-- Between two packets, `m_numSent` is the number of packets whose frame was accepted completely exactly if no
write has failed. What else is on the wire is less than one frame. -/
theorem numSent_iff (ids : IdManager) (actions : List MuxerAction) (m : PacketMuxer)
    (run : (system ids).run (system ids).start actions = some m) (between : m.send.sending = none) :
    (∃ part, m.wire = ComPacket.code.stream (m.written.map (·.packet)) ++ part ∧
      (part = [] ∨ ∃ p, hands m.log = m.written ++ [p] ∧ part.length < p.packet.frame.length)) ∧
    (m.numSent = UInt32.ofNat m.written.length ↔ .write .error ∉ actions) := by
  have reach : (system ids).Reach m := TransitionSystem.ReachUnder.start.run (fun _ _ _ => trivial) run
  have unwritten : m.send.unwritten = none := by
    by_contra writing
    obtain ⟨bytes, writing⟩ := Option.ne_none_iff_exists'.mp writing
    obtain ⟨type, sending⟩ := SendPc.unwritten_sending writing
    rw [sending] at between
    cases between
  have intact : m.send.intact = none := by
    by_contra hand
    obtain ⟨ok, hand⟩ := Option.ne_none_iff_exists'.mp hand
    obtain ⟨bytes, writing⟩ := SendPc.intact_unwritten hand
    rw [writing] at unwritten
    cases unwritten
  obtain ⟨rest, grown⟩ := (reach_writeInv reach).sub
  have close := reach_close reach
  have idle := (reach_handInv reach).idle between
  have sent := (reach_countInv reach).sent
  rw [← idle, ← grown, List.length_append] at sent
  rw [← grown, List.length_append] at close
  constructor
  · obtain ⟨part, split, remains⟩ := reach_sentInv reach
    simp only [Remains, intact] at remains
    refine ⟨part, split, ?_⟩
    cases rest with
    | nil => exact Or.inl (remains.1 (by simpa using grown))
    | cons p rest =>
      have alone : rest = [] := by
        rw [List.length_cons] at close
        exact List.eq_nil_of_length_eq_zero (by omega)
      subst alone
      exact Or.inr ⟨p, grown.symm, remains.2 p grown.symm unwritten⟩
  · have failed : m.Failed ↔ m.written ≠ hands m.log := by simp [Failed, intact, unwritten]
    have history := run_failed_iff TransitionSystem.ReachUnder.start run
    have fresh : ¬ (system ids).start.Failed := by simp [system, Failed, SendPc.intact, hands]
    rw [failed, or_iff_right fresh] at history
    rw [← history, not_not, sent]
    cases rest with
    | nil => simpa using grown
    | cons p rest =>
      have alone : rest = [] := by
        rw [List.length_cons] at close
        exact List.eq_nil_of_length_eq_zero (by omega)
      subst alone
      have other : m.written ≠ hands m.log := by
        rw [← grown]
        simp
      simp [other]

/-- The first write of the Hello packet fails, as all writes do after it. -/
def refusedHello : List MuxerAction :=
  List.replicate 9 .send ++ [.iterate [1], .send, .send] ++ List.replicate 3 (.write .error) ++ List.replicate 3 .send

theorem numSent_fails : ∃ ids : IdManager, IdManager.ofList [] = some ids ∧
    ¬ ∀ m, (system ids).Reach m → m.send.sending = none → m.numSent = UInt32.ofNat m.written.length := by
  obtain ⟨ids, built, m, reach, last⟩ : ∃ ids, IdManager.ofList [] = some ids ∧
      ∃ m, (system ids).Reach m ∧ (m.send.sending, m.numSent, m.written) = (none, 1, []) :=
    ⟨_, rfl, TransitionSystem.ReachUnder.start.computed
      (fun m : PacketMuxer => (m.send.sending, m.numSent, m.written)) refusedHello (fun _ _ _ => trivial) (by decide)⟩
  obtain ⟨between, numSent, written⟩ : m.send.sending = none ∧ m.numSent = 1 ∧ m.written = [] := by simpa using last
  refine ⟨ids, built, fun all => ?_⟩
  have equal := all m reach between
  rw [numSent, written] at equal
  cases equal

theorem numSent_iff_refused : ∃ (ids : IdManager) (m : PacketMuxer), IdManager.ofList [] = some ids ∧
    (∃ part, m.wire = ComPacket.code.stream (m.written.map (·.packet)) ++ part ∧
      (part = [] ∨ ∃ p, hands m.log = m.written ++ [p] ∧ part.length < p.packet.frame.length)) ∧
    (m.numSent = UInt32.ofNat m.written.length ↔ .write .error ∉ refusedHello) := by
  obtain ⟨ids, built, m, run, between⟩ : ∃ ids, IdManager.ofList [] = some ids ∧
      ∃ m, (system ids).run (system ids).start refusedHello = some m ∧ m.send.sending = none :=
    ⟨_, rfl, _, rfl, rfl⟩
  exact ⟨ids, m, built, numSent_iff ids refusedHello m run between⟩

end PacketMuxer

end PacketComms
