import PacketComms.Muxer.Writing

namespace PacketComms.PacketMuxer

/-- From the start of `sendPacket` to its last line the flag is not set, so the assignment there
has nothing to overwrite. -/
theorem WriteInv.unset {m : PacketMuxer} (inv : WriteInv m) {type : PacketType} {types : List PacketType} {ok : Bool}
    (sending : m.send = .assign type types ok ∨ ∃ fields, m.send = .write type types fields ok) :
    m.transportError = false := by
  rcases sending with at_pc | ⟨fields, at_pc⟩
  · exact (inv.calm [] (by rw [at_pc]; rfl)).1
  · exact (inv.calm fields.flatten (by rw [at_pc]; rfl)).1

theorem Effect.keeps_flag {ids : IdManager} {m m' : PacketMuxer} {action : MuxerAction} (inv : WriteInv m)
    (effect : Effect ids m action m') (flag : m.transportError = true) : m'.transportError = true := by
  cases effect with
  | user step | hello _ step | heartBeat _ step =>
    obtain ⟨-, -, -, same, -⟩ := step.sending_side
    exact same.trans flag
  | destroyStored => simp
  | assigned at_pc =>
    have unset := inv.unset (Or.inl at_pc)
    rw [flag] at unset
    cases unset
  | _ => exact flag

theorem run_keeps_flag {ids : IdManager} {C : PacketMuxer → MuxerAction → Prop} {actions : List MuxerAction}
    {m m' : PacketMuxer} (reach : (system ids).ReachUnder C m) (run : (system ids).run m actions = some m')
    (flag : m.transportError = true) : m'.transportError = true := by
  have there : (system ids).Reach m := reach.forget
  clear reach
  induction actions generalizing m with
  | nil =>
    cases Option.some.inj run
    exact flag
  | cons action actions ih =>
    obtain ⟨middle, step, rest⟩ := Option.bind_eq_some_iff.mp run
    exact ih rest ((step_effect step).keeps_flag (reach_writeInv there) flag) (there.next trivial step)

/-- Only an unset flag lets `sendAll` hand a packet over. -/
theorem Effect.hands_unset {ids : IdManager} {m m' : PacketMuxer} {action : MuxerAction} {packet : SharedPacket}
    (effect : Effect ids m action m') (log : m'.log = m.log ++ [.handed packet]) : m.transportError = false := by
  cases effect with
  | handed _ flag | asserted _ flag => exact flag
  | user step | hello _ step | heartBeat _ step =>
    have grown := congrArg hands log
    obtain ⟨-, same, -⟩ := step.sending_side
    simp [same] at grown
  | destroyStored | popped => simp at log
  | _ => simp at log

/-- The flag that stops the muxer is sticky: once set it stays set, `sendPacket` is not started while it is
set, and it is not set when `sendPacket` assigns it. -/
theorem stop_flag_sticky (ids : IdManager) (m : PacketMuxer) (reach : (system ids).Reach m) :
    (∀ actions m', (system ids).run m actions = some m' → m.transportError = true → m'.transportError = true) ∧
    (∀ type types ok, m.send = .assign type types ok → m.transportError = false) ∧
    (∀ action m' packet, step ids m action = some m' → m'.log = m.log ++ [.handed packet] →
      m.transportError = false) := by
  refine ⟨fun actions m' run flag => run_keeps_flag reach run flag, fun type types ok at_pc => ?_, ?_⟩
  · exact (reach_writeInv reach).unset (Or.inl at_pc)
  · exact fun action m' packet run log => (step_effect run).hands_unset log

/-- The destructor stores while the send thread waits. -/
def storesAsleep : List MuxerAction :=
  List.replicate 9 .send ++ [.iterate [1], .send] ++
  [.send, .write (.count 4), .send, .write (.count 4), .send, .write (.count 1), .send, .send, .send, .send] ++
  List.replicate 4 .send ++ [.destroy, .destroyed, .destroyed]

theorem stop_flag_sticky_stored : ∃ (ids : IdManager) (m : PacketMuxer), IdManager.ofList [] = some ids ∧
    m.transportError = true ∧
    (∀ actions m', (system ids).run m actions = some m' → m.transportError = true → m'.transportError = true) ∧
    (∀ type types ok, m.send = .assign type types ok → m.transportError = false) ∧
    (∀ action m' packet, step ids m action = some m' → m'.log = m.log ++ [.handed packet] →
      m.transportError = false) := by
  obtain ⟨ids, built, m, reach, flag⟩ : ∃ ids, IdManager.ofList [] = some ids ∧
      ∃ m, (system ids).Reach m ∧ m.transportError = true :=
    ⟨_, rfl, TransitionSystem.ReachUnder.start.computed PacketMuxer.transportError storesAsleep (fun _ _ _ => trivial)
      (by decide)⟩
  exact ⟨ids, m, built, flag, stop_flag_sticky ids m reach⟩

end PacketComms.PacketMuxer
