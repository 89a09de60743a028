import PacketComms.Muxer.HelloFirst
import PacketComms.Muxer.Posting

namespace PacketComms

/-- A post of this control message. -/
def SaysControl (msg : ControlMessage) (_ : String) (type : PacketType) (args : PacketArgs) : Prop :=
  type = IdManager.controlPacket ∧ args = msg.args

section Histories

variable (log : List MuxerEvent) (name : String) (packet : SharedPacket)

/-- The control packets posted, in order. -/
def controlPosts : List ComPacket := (postsOf IdManager.controlPacket log).map (·.packet)

@[simp] theorem controlPosts_posted : controlPosts (log ++ [.posted name packet]) =
    controlPosts log ++ if packet.packet.type = IdManager.controlPacket then [packet.packet] else [] := by
  by_cases control : packet.packet.type = IdManager.controlPacket <;> simp [controlPosts, postsOf, control]

@[simp] theorem controlPosts_handed : controlPosts (log ++ [.handed packet]) = controlPosts log := by
  simp [controlPosts, postsOf]

@[simp] theorem controlPosts_popped : controlPosts (log ++ [.popped packet]) = controlPosts log := by
  simp [controlPosts, postsOf]

end Histories

/-- The Hello message, and behind it heart beats. -/
def helloAndBeats (beats : Nat) : List ComPacket :=
  ControlMessage.hello.packet :: List.replicate beats ControlMessage.heartBeat.packet

theorem helloAndBeats_append (beats : Nat) :
    helloAndBeats beats ++ [ControlMessage.heartBeat.packet] = helloAndBeats (beats + 1) := by
  rw [helloAndBeats, helloAndBeats, List.cons_append, ← List.replicate_succ']

namespace PacketMuxer

/-- The send thread posts the Hello message once, and heart beats after it. -/
structure ControlInv (m : PacketMuxer) : Prop where
  hello : ∀ pc, m.send = .hello pc → pc.Meets (SaysControl .hello)
  heartBeat : ∀ pc, m.send = .heartBeat pc → pc.Meets (SaysControl .heartBeat)
  before : ¬ m.send.Greeted → controlPosts m.log = []
  after : m.send.Greeted → ∃ beats, controlPosts m.log = helloAndBeats beats

/-- A step of which the control packets do not know. -/
theorem ControlInv.quiet {m m' : PacketMuxer} (inv : ControlInv m)
    (hello : ∀ pc, m'.send = .hello pc → pc.Meets (SaysControl .hello))
    (heartBeat : ∀ pc, m'.send = .heartBeat pc → pc.Meets (SaysControl .heartBeat))
    (greeted : m'.send.Greeted ↔ m.send.Greeted) (log : controlPosts m'.log = controlPosts m.log) : ControlInv m' := by
  refine ⟨hello, heartBeat, ?_, ?_⟩
  · rw [greeted, log]
    exact inv.before
  · rw [greeted, log]
    exact inv.after

/-- What a step of `emplacePacket` does to the control packets. -/
theorem Emplaced.control {m m' : PacketMuxer} {t : MuxerThread} {alloc : Bool} {pc pc' : PostPc}
    (step : Emplaced m t alloc pc pc' m') : controlPosts m'.log = controlPosts m.log ∨
      ∃ name type args packet, pc = .emplacing name type args ∧ pc' = .signalling ∧
        ComPacket.make type args = some packet ∧
        controlPosts m'.log = controlPosts m.log ++ if type = IdManager.controlPacket then [packet] else [] := by
  cases step with
  | @emplaced name type args packet _ built =>
    refine Or.inr ⟨name, type, args, packet, rfl, rfl, built, ?_⟩
    rw [controlPosts_posted, ComPacket.make_type built]
  | signalled => exact Or.inl (by simp [signalPacketPosted])
  | _ => exact Or.inl rfl

/-- The steps by which the send thread posts a control message of its own. -/
theorem Emplaced.says {m m' : PacketMuxer} {pc pc' : PostPc} {msg : ControlMessage}
    (step : Emplaced m .send true pc pc' m') (about : pc.Meets (SaysControl msg)) :
    controlPosts m'.log = controlPosts m.log ∨ pc' = .signalling ∧
      controlPosts m'.log = controlPosts m.log ++ [msg.packet] := by
  refine step.control.imp id ?_
  rintro ⟨name, type, args, packet, rfl, after, built, log⟩
  obtain ⟨rfl, rfl⟩ := about
  cases Option.some.inj (msg.make_args ▸ built)
  exact ⟨after, log⟩

/-- The steps of the call that posts the Hello message. -/
theorem Emplaced.controlInv_hello {m m' : PacketMuxer} {pc pc' : PostPc} (at_pc : m.send = .hello pc)
    (step : Emplaced m .send true pc pc' m') (inv : ControlInv m) : ControlInv { m' with send := .hello pc' } := by
  have about := inv.hello pc at_pc
  have goesOn : ∀ pc, SendPc.hello pc' = .hello pc → pc.Meets (SaysControl .hello) := by
    rintro _ ⟨⟩
    exact (step.postInv about).1
  cases step with
  | locked => exact inv.quiet goesOn (by simp) (by rw [at_pc]; exact Iff.rfl) rfl
  | threw failed =>
    obtain ⟨-, rfl⟩ := about
    simp [ControlMessage.args, ComPacket.make] at failed
  | emplaced _ built =>
    have none := inv.before (by rw [at_pc]; exact id)
    obtain ⟨rfl, rfl⟩ := about
    cases Option.some.inj (ControlMessage.make_args .hello ▸ built)
    refine ⟨goesOn, by simp, fun notYet => absurd trivial notYet, fun _ => ⟨0, ?_⟩⟩
    rw [controlPosts_posted, none]
    rfl
  | signalled => exact inv.quiet goesOn (by simp) (by rw [at_pc]; exact Iff.rfl) (by simp [signalPacketPosted])
  | unlocked => exact inv.quiet goesOn (by simp) (by rw [at_pc]; exact Iff.rfl) rfl

theorem Effect.controlInv {names : List String} {ids : IdManager} (built : IdManager.ofList names = some ids)
    {allowed : String → PacketArgs → Prop}
    (user : ∀ name args, allowed name args → ids.toId name ≠ some IdManager.controlPacket)
    {m m' : PacketMuxer} {action : MuxerAction} (post : PostInv allowed ids m) (inv : ControlInv m)
    (effect : Effect ids m action m') : ControlInv m' := by
  cases effect with
  | threw => exact inv
  | called | destroy | destroyLocked | destroyUnlocked | destroyJoined =>
    exact inv.quiet inv.hello inv.heartBeat Iff.rfl rfl
  | @user i alloc pc next step =>
    obtain ⟨hello, greeted, -⟩ := notified_same step.send
    have heartBeat : ∀ pc, next.send = .heartBeat pc → m.send = .heartBeat pc :=
      fun pc at_pc => step.send.before at_pc (by simp)
    refine inv.quiet (fun pc at_pc => inv.hello pc (hello pc at_pc))
      (fun pc at_pc => inv.heartBeat pc (heartBeat pc at_pc)) greeted ?_
    rcases step.control with same | ⟨name, type, args, packet, at_pc, -, -, log⟩
    · exact same
    · have about := post.users i
      rw [at_pc] at about
      obtain ⟨may, issued⟩ := about
      have other : type ≠ IdManager.controlPacket := fun control => user name args may (control ▸ issued)
      simpa [other] using log
  | @hello pc pc' next at_pc step =>
    exact step.controlInv_hello at_pc inv
  | @heartBeat pc pc' next at_pc step =>
    have about := inv.heartBeat pc at_pc
    obtain ⟨beats, log⟩ := inv.after (by rw [at_pc]; trivial)
    refine ⟨by simp, ?_, fun notYet => absurd trivial notYet, fun _ => ?_⟩
    · rintro _ ⟨⟩
      exact (step.postInv about).1
    · rcases step.says about with same | ⟨-, more⟩
      · exact ⟨beats, same.trans log⟩
      · exact ⟨beats + 1, by rw [more, log, helloAndBeats_append]⟩
  | entered at_pc control =>
    cases Option.some.inj (control.symm.trans (IdManager.toId_controlString built))
    refine inv.quiet ?_ (by simp) (by rw [at_pc]; exact Iff.rfl) rfl
    rintro _ ⟨⟩
    exact ⟨rfl, rfl⟩
  | timedOut at_pc _ control =>
    cases Option.some.inj (control.symm.trans (IdManager.toId_controlString built))
    refine inv.quiet (by simp) ?_ (by rw [at_pc]; exact Iff.rfl) rfl
    rintro _ ⟨⟩
    exact ⟨rfl, rfl⟩
  | destroyStored =>
    obtain ⟨hello, greeted, -⟩ := notified_same m.stored_send
    have heartBeat : ∀ pc, _ = SendPc.heartBeat pc → m.send = .heartBeat pc :=
      fun pc at_pc => m.stored_send.before at_pc (by simp)
    exact inv.quiet (fun pc at_pc => inv.hello pc (hello pc at_pc))
      (fun pc at_pc => inv.heartBeat pc (heartBeat pc at_pc)) greeted (by simp)
  | handed at_pc | asserted at_pc | popped at_pc =>
    exact inv.quiet (by simp) (by simp) (by rw [at_pc]; exact Iff.rfl) (by simp)
  | greeted at_pc | locked at_pc | continues at_pc | stops at_pc | waits at_pc | busy at_pc | woken at_pc
  | relocked at_pc
  | beaten at_pc | iterates at_pc | passed at_pc | visits at_pc | drained at_pc | skipped at_pc | failed at_pc
  | accepted at_pc
  | interrupted at_pc | finished at_pc | assigned at_pc | unlocked at_pc =>
    exact inv.quiet (by simp) (by simp) (by rw [at_pc]; exact Iff.rfl) rfl

theorem reach_controlInv {names : List String} {ids : IdManager} (built : IdManager.ofList names = some ids)
    {allowed : String → PacketArgs → Prop}
    (user : ∀ name args, allowed name args → ids.toId name ≠ some IdManager.controlPacket)
    {C : PacketMuxer → MuxerAction → Prop} (posts : ∀ m action, C m action → Posts allowed m action) {m : PacketMuxer}
    (reach : (system ids).ReachUnder C m) : ControlInv m := by
  refine reach.invariant ⟨by simp [system], by simp [system], fun _ => rfl, nofun⟩ ?_
  exact fun before inv _ run => (step_effect run).controlInv built user (reach_postInv posts before) inv

/-- The control packets posted are the first of the Hello message and heart beats. -/
theorem ControlInv.posted {m : PacketMuxer} (inv : ControlInv m) :
    ∃ beats, controlPosts m.log <+: helloAndBeats beats := by
  by_cases greeted : m.send.Greeted
  · obtain ⟨beats, same⟩ := inv.after greeted
    exact ⟨beats, same ▸ List.prefix_rfl⟩
  · exact ⟨0, inv.before greeted ▸ List.nil_prefix⟩

end PacketMuxer

end PacketComms
