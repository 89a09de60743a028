import PacketComms.Muxer.Writing

namespace PacketComms

/-- The Hello message is still to be put into its queue. -/
def PostPc.Greets : PostPc → Prop
  | .locking _ type args | .emplacing _ type args =>
    type = IdManager.controlPacket ∧ args = ControlMessage.hello.args
  | _ => False

namespace SendPc

/-- The send thread has put the Hello message into its queue. -/
def Greeted : SendPc → Prop
  | .entered | .hello (.locking ..) | .hello (.emplacing ..) => False
  | _ => True

/-- The queues that the pass under way has still to visit or to leave. -/
def remaining : SendPc → Option (List PacketType)
  | .visit types => some types
  | .drain type types => some (type :: types)
  | _ => none

theorem remaining_holds {pc : SendPc} {types : List PacketType} (passing : pc.remaining = some types) :
    pc.holds = 1 := by
  cases pc <;> simp_all [remaining, holds]

theorem remaining_greeted {pc : SendPc} {types : List PacketType} (passing : pc.remaining = some types) :
    pc.Greeted := by
  cases pc <;> simp_all [remaining, Greeted]

end SendPc

namespace PacketMuxer

/-- A notification changes nothing that matters here. -/
theorem notified_same {m m' : PacketMuxer} (moved : m.send.Notified m'.send) :
    (∀ pc, m'.send = .hello pc → m.send = .hello pc) ∧ (m'.send.Greeted ↔ m.send.Greeted) ∧
    m'.send.remaining = m.send.remaining := by
  refine ⟨fun pc at_pc => moved.before at_pc (by simp), ?_, moved.congr SendPc.remaining (fun _ => rfl)⟩
  exact (moved.congr SendPc.Greeted (fun _ => rfl)).to_iff

/-- The queues that this order visits before that of the control packets are empty. -/
def ControlFirst (m : PacketMuxer) (types : List PacketType) : Prop :=
  ∀ type ∈ types.takeWhile (· ≠ IdManager.controlPacket), m.txQueues.get type = []

/-- What the scheduler and the iteration order must not do: put a packet under the id of
the control packets ahead of the Hello message, or make the first pass visit a queue that
is not empty before theirs. -/
def HelloAhead (m : PacketMuxer) : MuxerAction → Prop
  | .user i alloc => ¬ m.send.Greeted → alloc = true → ∀ name type args,
      m.users i = .emplacing name type args → type ≠ IdManager.controlPacket
  | .iterate types => hands m.log = [] → m.transportError = false → m.ControlFirst types
  | _ => True

/-- No thread posts under the id of the control packets, and every pass visits their queue first. -/
def controlAhead (m : PacketMuxer) : MuxerAction → Bool
  | .user i _ =>
    match m.users i with
    | .emplacing _ type _ => type ≠ IdManager.controlPacket
    | _ => true
  | .iterate types => types.head? = some IdManager.controlPacket
  | _ => true

theorem helloAhead_of_controlAhead {m : PacketMuxer} {action : MuxerAction} (ahead : m.controlAhead action = true) :
    HelloAhead m action := by
  cases action with
  | user i alloc =>
    intro _ _ name type args at_pc
    simpa [controlAhead, at_pc] using ahead
  | iterate types =>
    intro _ _ type before
    obtain ⟨rest, rfl⟩ := List.head?_eq_some_iff.mp (of_decide_eq_true ahead)
    simp at before
  | _ => trivial

/-- Until a packet is handed over, the Hello message is on its way to the front of its
queue, then there, and the pass under way reaches that queue first. -/
structure HelloInv (m : PacketMuxer) : Prop where
  greets : ∀ pc, m.send = .hello pc → ¬ m.send.Greeted → pc.Greets
  before : ¬ m.send.Greeted → m.txQueues.get IdManager.controlPacket = [] ∧ hands m.log = []
  queued : m.send.Greeted → hands m.log = [] →
    ∃ addr packets, m.txQueues.get IdManager.controlPacket = ⟨addr, ControlMessage.hello.packet⟩ :: packets
  pass : hands m.log = [] → m.transportError = false → ∀ types, m.send.remaining = some types →
    IdManager.controlPacket ∈ types ∧ m.ControlFirst types
  first : ∀ packet, (hands m.log).head? = some packet → packet.packet = ControlMessage.hello.packet

/-- A step that leaves the history, the queues and the greeting alone, and does not
begin a pass. -/
theorem HelloInv.quiet {m m' : PacketMuxer} (inv : HelloInv m)
    (greets : ∀ pc, m'.send = .hello pc → ¬ m'.send.Greeted → pc.Greets)
    (greeted : m'.send.Greeted ↔ m.send.Greeted) (log : hands m'.log = hands m.log)
    (queue : m'.txQueues.get = m.txQueues.get)
    (pass : ∀ types, m'.send.remaining = some types → m'.transportError = false →
      m.send.remaining = some types ∧ m.transportError = false) : HelloInv m' := by
  refine ⟨greets, ?_, ?_, ?_, ?_⟩
  · rw [greeted, queue, log]
    exact inv.before
  · rw [greeted, queue, log]
    exact inv.queued
  · intro none flag types passing
    obtain ⟨was, calm⟩ := pass types passing flag
    rw [ControlFirst, queue]
    exact inv.pass (log ▸ none) calm types was
  · rw [log]
    exact inv.first

/-- A post behind the Hello message, or ahead of it under another id. -/
theorem HelloInv.posted {m m' : PacketMuxer} (inv : HelloInv m) {type : PacketType} {packet : SharedPacket}
    (greets : ∀ pc, m'.send = .hello pc → ¬ m'.send.Greeted → pc.Greets)
    (greeted : m'.send.Greeted ↔ m.send.Greeted) (log : hands m'.log = hands m.log)
    (queue : m'.txQueues.get = Function.update m.txQueues.get type (m.txQueues.get type ++ [packet]))
    (ahead : ¬ m.send.Greeted → type ≠ IdManager.controlPacket) (outside : m'.send.remaining = none) :
    HelloInv m' := by
  refine ⟨greets, ?_, ?_, ?_, by rw [log]; exact inv.first⟩
  · intro notYet
    rw [greeted] at notYet
    rw [queue, log, Function.update_of_ne (ahead notYet).symm]
    exact inv.before notYet
  · intro already none
    obtain ⟨addr, packets, front⟩ := inv.queued (greeted.mp already) (log ▸ none)
    by_cases same : type = IdManager.controlPacket
    · subst same
      exact ⟨addr, packets ++ [packet], by rw [queue, Function.update_self, front]; rfl⟩
    · exact ⟨addr, packets, by rw [queue, Function.update_of_ne (Ne.symm same), front]⟩
  · intro _ _ types passing
    rw [outside] at passing
    cases passing

/-- The packet that the first pass hands over is the Hello message. -/
theorem HelloInv.front {m : PacketMuxer} (inv : HelloInv m) {type : PacketType} {types : List PacketType}
    {packet : SharedPacket} {packets : List SharedPacket} (none : hands m.log = [])
    (flag : m.transportError = false) (passing : m.send.remaining = some (type :: types))
    (queue : m.txQueues.get type = packet :: packets) : packet.packet = ControlMessage.hello.packet := by
  obtain ⟨-, ahead⟩ := inv.pass none flag _ passing
  by_cases control : type = IdManager.controlPacket
  · obtain ⟨addr, rest, front⟩ := inv.queued (SendPc.remaining_greeted passing) none
    rw [← control, queue] at front
    cases front
    rfl
  · have empty := ahead type (by rw [List.takeWhile_cons_of_pos (by simpa using control)]; exact List.mem_cons_self)
    rw [queue] at empty
    cases empty

/-- The steps of a call of `emplacePacket` other than the one that queues the Hello message. -/
theorem Emplaced.helloInv {m m' next : PacketMuxer} {t : MuxerThread} {alloc : Bool} {pc pc' : PostPc}
    (step : Emplaced m t alloc pc pc' m') (inv : HelloInv m)
    (ahead : ¬ m.send.Greeted → alloc = true → ∀ name type args, pc = .emplacing name type args →
      type ≠ IdManager.controlPacket)
    (outside : 0 < pc.holds → m.send.remaining = none)
    (greets : ∀ pc, next.send = .hello pc → m.send = .hello pc)
    (greeted : next.send.Greeted ↔ m.send.Greeted) (remaining : next.send.remaining = m.send.remaining)
    (log : next.log = m'.log) (queue : next.txQueues = m'.txQueues)
    (flag : next.transportError = m'.transportError) : HelloInv next := by
  have greets' : ∀ pc, next.send = .hello pc → ¬ next.send.Greeted → pc.Greets := by
    intro pc at_pc notYet
    exact inv.greets pc (greets pc at_pc) (fun already => notYet (greeted.mpr already))
  obtain ⟨-, hands, -, error, -⟩ := step.sending_side
  have pass : ∀ types, next.send.remaining = some types → next.transportError = false →
      m.send.remaining = some types ∧ m.transportError = false := by
    intro types passing calm
    exact ⟨remaining ▸ passing, by rw [← error, ← flag, calm]⟩
  cases step with
  | locked | unlocked => exact inv.quiet greets' greeted (by rw [log, hands]) (by rw [queue]) pass
  | threw => exact inv.quiet greets' greeted (by rw [log]) (by rw [queue]; funext type; simp) pass
  | emplaced allocated =>
    exact inv.posted greets' greeted (by rw [log, hands]) (by rw [queue]; rfl)
      (fun notYet => ahead notYet allocated _ _ _ rfl) (remaining.trans (outside Nat.one_pos))
  | signalled =>
    exact inv.quiet greets' greeted (by rw [log, hands]) (by rw [queue]; simp [signalPacketPosted]) pass

/-- The steps of the call that queues the Hello message. -/
theorem Emplaced.helloInv_hello {m m' : PacketMuxer} {pc pc' : PostPc} (at_pc : m.send = .hello pc)
    (step : Emplaced m .send true pc pc' m') (inv : HelloInv m) :
    HelloInv { m' with send := .hello pc' } := by
  have greets := inv.greets pc at_pc
  cases step with
  | locked =>
    rw [at_pc] at greets
    refine inv.quiet ?_ (by rw [at_pc]; exact Iff.rfl) rfl rfl (by simp [SendPc.remaining])
    intro pc same _
    cases same
    exact greets id
  | threw failed =>
    rw [at_pc] at greets
    obtain ⟨-, rfl⟩ := greets id
    simp [ControlMessage.args, ComPacket.make] at failed
  | emplaced _ built =>
    obtain ⟨empty, none⟩ := inv.before (by rw [at_pc]; exact id)
    rw [at_pc] at greets
    obtain ⟨rfl, rfl⟩ := greets id
    cases Option.some.inj (ControlMessage.make_args .hello ▸ built)
    refine ⟨fun pc _ notYet => absurd trivial notYet, fun notYet => absurd trivial notYet,
      ?_, by simp [SendPc.remaining], ?_⟩
    · intro _ _
      exact ⟨m.nextAddr, [], by simp [empty]⟩
    · simp [none]
  | signalled =>
    exact inv.quiet (fun pc _ notYet => absurd trivial notYet) (by rw [at_pc]; exact Iff.rfl)
      (by simp [signalPacketPosted]) (by simp [signalPacketPosted]) (by simp [SendPc.remaining])
  | unlocked =>
    exact inv.quiet (fun pc _ notYet => absurd trivial notYet) (by rw [at_pc]; exact Iff.rfl) rfl rfl
      (by simp [SendPc.remaining])

theorem Effect.helloInv {names : List String} {ids : IdManager} (built : IdManager.ofList names = some ids)
    {m m' : PacketMuxer} {action : MuxerAction} (lock : LockInv m) (hand : HandInv m)
    (inv : HelloInv m) (ahead : HelloAhead m action) (effect : Effect ids m action m') : HelloInv m' := by
  cases effect with
  | threw => exact inv
  | called | destroy | destroyLocked | destroyUnlocked | destroyJoined =>
    exact inv.quiet inv.greets Iff.rfl rfl rfl (fun _ passing calm => ⟨passing, calm⟩)
  | @user i alloc pc next step =>
    obtain ⟨greets, greeted, remaining⟩ := notified_same step.send
    refine step.helloInv inv ahead (fun owner => ?_) greets greeted remaining rfl rfl rfl
    by_contra passing
    obtain ⟨types, passing⟩ := Option.ne_none_iff_exists'.mp passing
    have free := lock.exclusive (t := .user i) (u := .send) owner nofun
    rw [show m.holds .send = m.send.holds from rfl, SendPc.remaining_holds passing] at free
    cases free
  | hello at_pc step => exact step.helloInv_hello at_pc inv
  | heartBeat at_pc step =>
    have already : m.send.Greeted := by rw [at_pc]; trivial
    have between : m.send.remaining = none := by rw [at_pc]; rfl
    exact step.helloInv inv (fun notYet => absurd already notYet) (fun _ => between) nofun
      (by rw [at_pc]; exact Iff.rfl) between.symm rfl rfl rfl
  | entered at_pc control =>
    cases Option.some.inj (control.symm.trans (IdManager.toId_controlString built))
    refine inv.quiet ?_ (by rw [at_pc]; exact Iff.rfl) rfl rfl nofun
    intro pc same _
    cases same
    exact ⟨rfl, rfl⟩
  | destroyStored =>
    obtain ⟨greets, greeted, -⟩ := notified_same m.stored_send
    refine inv.quiet (fun pc at_pc notYet => ?_) greeted (by simp) (by simp) (by simp)
    exact inv.greets pc (greets pc at_pc) (fun already => notYet (greeted.mpr already))
  | iterates at_pc perm =>
    have already : m.send.Greeted := by rw [at_pc]; trivial
    refine ⟨nofun, fun notYet => absurd trivial notYet, fun _ => inv.queued already, ?_, inv.first⟩
    intro none calm types same
    cases same
    obtain ⟨addr, packets, front⟩ := inv.queued already none
    refine ⟨perm.mem_iff.mpr (KeyedLists.mem_keys_of_mem (a := ⟨addr, ControlMessage.hello.packet⟩) ?_),
      ahead none calm⟩
    rw [front]
    exact List.mem_cons_self
  | @drained type types at_pc reason =>
    have already : m.send.Greeted := by rw [at_pc]; trivial
    refine ⟨nofun, fun notYet => absurd trivial notYet, fun _ => inv.queued already, ?_, inv.first⟩
    intro none calm types same
    cases same
    obtain ⟨member, ahead⟩ := inv.pass none calm _ (by rw [at_pc]; rfl)
    have empty : m.txQueues.get type = [] := reason.resolve_left (by simp [show m.transportError = false from calm])
    obtain ⟨addr, packets, front⟩ := inv.queued already none
    have other : type ≠ IdManager.controlPacket := by
      intro control
      rw [control, front] at empty
      cases empty
    refine ⟨(List.mem_cons.mp member).resolve_left (Ne.symm other), ?_⟩
    intro earlier visited
    refine ahead earlier ?_
    rw [List.takeWhile_cons_of_pos (by simpa using other)]
    exact List.mem_cons_of_mem _ visited
  | @handed type types packet packets at_pc flag queue | @asserted type types packet packets at_pc flag queue =>
    refine ⟨nofun, fun notYet => absurd trivial notYet, ?_, nofun, ?_⟩
    · simp
    · intro other first
      cases none : hands m.log with
      | nil =>
        rw [hands_handed, none] at first
        cases first
        exact inv.front none flag (by rw [at_pc]; rfl) queue
      | cons p l =>
        rw [hands_handed, none] at first
        exact inv.first other (by rw [none]; exact first)
  | @popped type types packet packets at_pc queue =>
    obtain ⟨front, rest, earlier, -, log, -⟩ := hand.busy type (by rw [at_pc]; rfl)
    have some : hands m.log ≠ [] := by simp [log]
    refine ⟨nofun, fun notYet => absurd trivial notYet, ?_, ?_, by rw [hands_popped]; exact inv.first⟩
    · exact fun _ none => absurd (hands_popped .. ▸ none) some
    · exact fun none => absurd (hands_popped .. ▸ none) some
  | visits at_pc =>
    refine inv.quiet nofun (by rw [at_pc]; exact Iff.rfl) rfl rfl ?_
    intro types same calm
    exact ⟨by rw [at_pc]; exact same, calm⟩
  | greeted at_pc | locked at_pc | continues at_pc | stops at_pc | waits at_pc | busy at_pc
  | woken at_pc | relocked at_pc | timedOut at_pc | beaten at_pc | passed at_pc
  | skipped at_pc | failed at_pc | accepted at_pc | interrupted at_pc | finished at_pc
  | assigned at_pc | unlocked at_pc => exact inv.quiet nofun (by rw [at_pc]; exact Iff.rfl) rfl rfl nofun

theorem reach_helloInv {names : List String} {ids : IdManager} (built : IdManager.ofList names = some ids)
    {m : PacketMuxer} (reach : (system ids).ReachUnder HelloAhead m) : HelloInv m := by
  refine reach.invariant ⟨nofun, fun _ => ⟨rfl, rfl⟩, nofun, nofun, nofun⟩ ?_
  intro s a s' before inv ahead run
  exact (step_effect run).helloInv built (reach_lockInv before) (reach_handInv before) inv ahead

/-- As long as nothing gets ahead of it, the Hello message is the first packet written. -/
theorem hello_first (names : List String) (ids : IdManager) (built : IdManager.ofList names = some ids)
    (m : PacketMuxer) (reach : (system ids).ReachUnder HelloAhead m) :
    ∀ packet, m.written.head? = some packet → packet.packet = ControlMessage.hello.packet := by
  intro packet first
  obtain ⟨rest, hands⟩ := (reach_writeInv reach).sub
  refine (reach_helloInv built reach).first packet ?_
  rw [← hands, List.head?_append, first]
  rfl

/-- A run of the send thread alone, up to the end of its first packet. -/
def aloneUntilHello : List MuxerAction :=
  List.replicate 9 .send ++ [.iterate [1], .send, .send] ++
  [.write (.count 4), .send, .write (.count 4), .send, .write (.count 1), .send, .send, .send]

/-- A packet is posted before the Hello message, but the first pass visits the queue of the control packets first. -/
def helloThenPost : List MuxerAction :=
  [.post 0 "A" (.moved [7]), .user 0 true, .user 0 true, .user 0 true, .user 0 true] ++
  List.replicate 9 .send ++ [.iterate [1, 2], .send, .send] ++
  [.write (.count 4), .send, .write (.count 4), .send, .write (.count 1), .send, .send, .send, .send] ++
  [.send, .send, .send, .write (.count 4), .send, .write (.count 4), .send, .write (.count 1), .send, .send, .send]

theorem hello_first_posted : ∃ (ids : IdManager) (m : PacketMuxer), IdManager.ofList ["A"] = some ids ∧
    m.written = [⟨1, ControlMessage.hello.packet⟩, ⟨0, 2, [7]⟩] ∧
    ∀ packet, m.written.head? = some packet → packet.packet = ControlMessage.hello.packet := by
  obtain ⟨ids, built, m, reach, written⟩ : ∃ ids, IdManager.ofList ["A"] = some ids ∧
      ∃ m, (system ids).ReachUnder (fun m action => m.controlAhead action = true) m ∧
        m.written = [⟨1, ControlMessage.hello.packet⟩, ⟨0, 2, [7]⟩] :=
    ⟨_, rfl, TransitionSystem.ReachUnder.start.checked PacketMuxer.written helloThenPost (by decide +kernel)⟩
  exact ⟨ids, m, built, written, hello_first ["A"] ids built m (reach.mono fun _ _ => helloAhead_of_controlAhead)⟩

/-- The names of posts are those of the id list. -/
def ListedPosts (names : List String) (_ : PacketMuxer) : MuxerAction → Prop
  | .post _ name _ => name ∈ names
  | _ => True

theorem hello_first_fails : ¬ ∀ (names : List String) (ids : IdManager) (m : PacketMuxer),
    IdManager.ofList names = some ids → (system ids).ReachUnder (ListedPosts names) m →
    ∀ packet, m.written.head? = some packet → packet.packet = ControlMessage.hello.packet := by
  intro always
  obtain ⟨ids, built, m, reach, written⟩ : ∃ ids, IdManager.ofList ["A"] = some ids ∧
      ∃ m, (system ids).ReachUnder (ListedPosts ["A"]) m ∧ m.written = [⟨0, 2, [7]⟩] := by
    refine ⟨_, rfl, TransitionSystem.ReachUnder.start.computed PacketMuxer.written earlyPost ?_ (by decide)⟩
    intro action member s
    cases action with
    | post i name args =>
      simp only [earlyPost, List.cons_append, List.nil_append, List.replicate] at member
      simp at member
      simp [ListedPosts, member]
    | _ => trivial
  have hello := always ["A"] ids m built reach ⟨0, 2, [7]⟩ (by rw [written]; rfl)
  exact absurd hello (by decide)

end PacketMuxer

end PacketComms
