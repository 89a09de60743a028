import PacketComms.Muxer.Pass
import PacketComms.Muxer.Sent
import PacketComms.Muxer.Wire

namespace PacketComms

/-- The thread that takes the step. -/
def MuxerAction.thread : MuxerAction → MuxerThread
  | .post i _ _ | .user i _ => .user i
  | .send | .wake _ | .iterate _ | .write _ => .send
  | .destroy | .destroyed => .destructor

/-- Where a thread is in `emplacePacket`, if it calls it. -/
def PacketMuxer.posting (m : PacketMuxer) : MuxerThread → PostPc
  | .user i => m.users i
  | .send =>
    match m.send with
    | .hello pc | .heartBeat pc => pc
    | _ => .idle
  | .destructor => .idle

/-- A muxer with the history of the calls of `emplacePacket`: `calling t` is what the call of `t` has put
into a queue, `returned` are the packets whose call has returned, and `promised` those whose call
had returned when the destructor was entered. -/
structure WatchedMuxer where
  muxer : PacketMuxer := {}
  calling : MuxerThread → Option SharedPacket := fun _ => none
  returned : List SharedPacket := []
  promised : List SharedPacket := []

namespace WatchedMuxer

/-- The history after a step of the muxer to `m`. -/
def watch (w : WatchedMuxer) (action : MuxerAction) (m : PacketMuxer) : WatchedMuxer :=
  match w.muxer.posting action.thread, m.posting action.thread, action with
  | .emplacing .., .signalling, _ =>
    { w with muxer := m, calling := Function.update w.calling action.thread (posts m.log).getLast? }
  | .unlocking, .idle, _ =>
    { w with
      muxer := m
      calling := Function.update w.calling action.thread none
      returned := w.returned ++ (w.calling action.thread).toList }
  | _, _, .destroy => { w with muxer := m, promised := w.returned }
  | _, _, _ => { w with muxer := m }

def system (ids : IdManager) : TransitionSystem WatchedMuxer MuxerAction where
  start := {}
  step w action := (PacketMuxer.step ids w.muxer action).map (w.watch action)

@[simp] theorem muxer_watch (w : WatchedMuxer) (action : MuxerAction) (m : PacketMuxer) :
    (w.watch action m).muxer = m := by
  unfold watch
  split <;> rfl

/-- Only entering the destructor changes what is promised. -/
theorem promised_watch (w : WatchedMuxer) {action : MuxerAction} (m : PacketMuxer) (other : action ≠ .destroy) :
    (w.watch action m).promised = w.promised := by
  unfold watch
  split
  · rfl
  · rfl
  · exact absurd rfl other
  · rfl

theorem step_muxer {ids : IdManager} {w w' : WatchedMuxer} {action : MuxerAction}
    (run : (system ids).step w action = some w') :
    PacketMuxer.step ids w.muxer action = some w'.muxer ∧ w' = w.watch action w'.muxer := by
  obtain ⟨m, moved, rfl⟩ := Option.map_eq_some_iff.mp run
  rw [muxer_watch]
  exact ⟨moved, rfl⟩

/-- What is recorded was posted. -/
structure WatchInv (w : WatchedMuxer) : Prop where
  calling : ∀ t packet, w.calling t = some packet → packet ∈ posts w.muxer.log
  returned : ∀ packet ∈ w.returned, packet ∈ posts w.muxer.log
  promised : ∀ packet ∈ w.promised, packet ∈ posts w.muxer.log

theorem WatchInv.watch {w : WatchedMuxer} (inv : WatchInv w) (action : MuxerAction) {m : PacketMuxer}
    (grows : ∀ packet ∈ posts w.muxer.log, packet ∈ posts m.log) : WatchInv (w.watch action m) := by
  have calling := fun t packet call => grows packet (inv.calling t packet call)
  have returned := fun packet member => grows packet (inv.returned packet member)
  have promised := fun packet member => grows packet (inv.promised packet member)
  have update (t : MuxerThread) (entry : Option SharedPacket)
      (known : ∀ packet, entry = some packet → packet ∈ posts m.log)
      (u : MuxerThread) (packet : SharedPacket) (call : Function.update w.calling t entry u = some packet) :
      packet ∈ posts m.log := by
    by_cases own : u = t
    · subst own
      rw [Function.update_self] at call
      exact known packet call
    · rw [Function.update_of_ne own] at call
      exact calling u packet call
  unfold WatchedMuxer.watch
  split
  · exact ⟨update _ _ (fun packet last => List.mem_of_getLast? last), returned, promised⟩
  · refine ⟨update _ none (by simp), fun packet member => ?_, promised⟩
    rcases List.mem_append.mp member with old | new
    · exact returned packet old
    · exact calling _ packet (Option.mem_toList.mp new)
  · exact ⟨calling, returned, returned⟩
  · exact ⟨calling, returned, promised⟩

/-- What was posted stays posted. -/
theorem posts_grow {ids : IdManager} {m m' : PacketMuxer} {action : MuxerAction} (lock : PacketMuxer.LockInv m)
    (run : PacketMuxer.step ids m action = some m') : ∀ packet ∈ posts m.log, packet ∈ posts m'.log := by
  intro packet member
  cases (PacketMuxer.step_effect run).countChange lock with
  | quiet _ _ _ same | signalled _ _ _ _ same | popped _ _ _ same => rwa [same]
  | posted _ _ _ _ more =>
    rw [more]
    exact List.mem_append_left _ member

theorem reach_muxer {ids : IdManager} {C : PacketMuxer → MuxerAction → Prop} {w : WatchedMuxer}
    (reach : (system ids).ReachUnder (fun w action => C w.muxer action) w) :
    (PacketMuxer.system ids).ReachUnder C w.muxer := by
  induction reach with
  | start => exact .start
  | next _ met run ih => exact .next ih met (step_muxer run).1

theorem reach_watchInv {ids : IdManager} {w : WatchedMuxer} (reach : (system ids).Reach w) : WatchInv w := by
  refine reach.invariant ⟨by simp [system], by simp [system], by simp [system]⟩ ?_
  intro w action w' before inv _ run
  obtain ⟨moved, watched⟩ := step_muxer run
  rw [watched]
  exact inv.watch action (posts_grow (PacketMuxer.reach_lockInv (reach_muxer (C := fun _ _ => True) before)) moved)

end WatchedMuxer

namespace PacketMuxer

/-- After the store nothing is written any more. -/
theorem Effect.stopped {ids : IdManager} {m m' : PacketMuxer} {action : MuxerAction} (write : WriteInv m)
    (effect : Effect ids m action m') (flag : m.transportError = true) : m'.written = m.written ∧ m'.wire = m.wire := by
  have outside {bytes : List Byte} (writing : m.send.unwritten = some bytes) : False := by
    rw [(write.calm bytes writing).1] at flag
    cases flag
  cases effect with
  | user step | hello _ step | heartBeat _ step =>
    obtain ⟨-, -, written, -, wire, -⟩ := step.sending_side
    exact ⟨written, wire⟩
  | accepted at_pc | interrupted at_pc | failed at_pc | assigned at_pc => exact (outside (by rw [at_pc]; rfl)).elim
  | destroyStored => simp
  | _ => exact ⟨rfl, rfl⟩

/-- The destructor is entered once. -/
theorem Effect.entered_once {ids : IdManager} {m m' : PacketMuxer} {action : MuxerAction}
    (effect : Effect ids m action m') (entered : m.destructor ≠ .notCalled) :
    m'.destructor ≠ .notCalled ∧ action ≠ .destroy := by
  cases effect with
  | user step | hello _ step | heartBeat _ step =>
    obtain ⟨-, -, destructor, -⟩ := step.lock
    exact ⟨by simpa [destructor] using entered, by simp⟩
  | destroy not => exact absurd not entered
  | destroyLocked | destroyUnlocked | destroyJoined => exact ⟨by simp, by simp⟩
  | destroyStored => exact ⟨by simp, by simp⟩
  | _ => exact ⟨entered, by simp⟩

theorem noWriteError_of_ne {m : PacketMuxer} {action : MuxerAction} (other : action ≠ .write .error) :
    NoWriteError m action := by
  cases action with
  | write answer =>
    cases answer with
    | error => exact absurd rfl other
    | count n => trivial
  | _ => trivial

/-- Where no write fails, only the destructor sets the flag. -/
theorem reach_unstopped {ids : IdManager} {m : PacketMuxer} (reach : (system ids).ReachUnder NoWriteError m) :
    ¬ m.Failed ∧ (m.transportError = true → m.destructor.Stored) := by
  refine reach.invariant (I := fun m => ¬ m.Failed ∧ (m.transportError = true → m.destructor.Stored)) ?_ ?_
  · exact ⟨by simp [system, Failed, SendPc.intact, hands], by simp [system]⟩
  intro m action m' before unstopped met run
  obtain ⟨intact, stored⟩ := unstopped
  have effect := step_effect run
  refine ⟨?_, fun flag => ?_⟩
  · rw [effect.failed_iff (reach_handInv before) (reach_writeInv before), or_iff_right intact]
    rintro rfl
    exact met
  · cases effect with
    | user step | hello _ step | heartBeat _ step =>
      obtain ⟨-, -, -, same, -⟩ := step.sending_side
      obtain ⟨-, -, destructor, -⟩ := step.lock
      simpa [destructor] using stored (same ▸ flag)
    | assigned at_pc =>
      simp [Failed, at_pc, SendPc.intact] at intact
      simp [intact] at flag
    | destroyStored => exact Or.inl (by simp)
    | destroyUnlocked => exact Or.inr (Or.inl rfl)
    | destroyJoined => exact Or.inr (Or.inr rfl)
    | destroy at_pc | destroyLocked at_pc =>
      have impossible := stored flag
      simp [DestructorPc.Stored, at_pc] at impossible
    | _ => exact stored flag

/-- Only the store leads behind the store. -/
theorem Effect.stores {ids : IdManager} {m m' : PacketMuxer} {action : MuxerAction} (effect : Effect ids m action m')
    (before : ¬ m.destructor.Stored) (after : m'.destructor.Stored) :
    m.destructor = .storing ∧ action = .destroyed ∧ m'.transportError = true ∧ m'.written = m.written ∧
      m'.wire = m.wire := by
  cases effect with
  | destroyStored at_pc => exact ⟨at_pc, rfl, by simp, by simp, by simp⟩
  | user step | hello _ step | heartBeat _ step =>
    obtain ⟨-, -, destructor, -⟩ := step.lock
    exact absurd (by simpa [destructor] using after) before
  | destroy | destroyLocked => simp [DestructorPc.Stored] at after
  | destroyUnlocked at_pc | destroyJoined at_pc => simp [DestructorPc.Stored, at_pc] at before
  | _ => exact absurd after before

/-- A packet that was posted is popped or still queued, never both. -/
theorem HandInv.popped_iff {m : PacketMuxer} {f : PacketType → Fifo SharedPacket} (related : Refines m f)
    (inv : HandInv m) {packet : SharedPacket} (posted : packet ∈ posts m.log) :
    packet ∈ pops m.log ↔ packet ∉ m.txQueues.get packet.packet.type := by
  have balance := (f packet.packet.type).balance
  rw [related.taken, related.queue, related.posted] at balance
  have distinct : (popsOf packet.packet.type m.log ++ m.txQueues.get packet.packet.type).Nodup := by
    rw [balance]
    exact inv.distinct.filter _
  have member : packet ∈ popsOf packet.packet.type m.log ++ m.txQueues.get packet.packet.type := by
    rw [balance]
    simp [postsOf, posted]
  have mine : packet ∈ pops m.log ↔ packet ∈ popsOf packet.packet.type m.log := by simp [popsOf]
  rw [mine]
  constructor
  · exact fun popped => (List.disjoint_of_nodup_append distinct) popped
  · exact fun free => (List.mem_append.mp member).resolve_right free

end PacketMuxer

namespace WatchedMuxer

/-- What a run leaves alone that begins behind the store. -/
theorem run_stopped {ids : IdManager} {w w' : WatchedMuxer} {actions : List MuxerAction} (reach : (system ids).Reach w)
    (run : (system ids).run w actions = some w') (flag : w.muxer.transportError = true)
    (entered : w.muxer.destructor ≠ .notCalled) :
    w'.muxer.written = w.muxer.written ∧ w'.muxer.wire = w.muxer.wire ∧ w'.promised = w.promised := by
  induction actions generalizing w with
  | nil =>
    cases Option.some.inj run
    exact ⟨rfl, rfl, rfl⟩
  | cons action actions ih =>
    obtain ⟨middle, step, rest⟩ := Option.bind_eq_some_iff.mp run
    obtain ⟨moved, watched⟩ := step_muxer step
    have effect := PacketMuxer.step_effect moved
    have write := PacketMuxer.reach_writeInv (reach_muxer (C := fun _ _ => True) reach)
    obtain ⟨written, wire⟩ := effect.stopped write flag
    obtain ⟨called, other⟩ := effect.entered_once entered
    obtain ⟨written', wire', promised'⟩ := ih (reach.next trivial step) rest (effect.keeps_flag write flag) called
    refine ⟨written'.trans written, wire'.trans wire, promised'.trans ?_⟩
    rw [watched]
    exact promised_watch w middle.muxer other

/-- When the destructor has returned, what was promised is written completely exactly if none of it was queued
any more when the destructor stored the flag. -/
theorem shutdown_flushes_iff (ids : IdManager) (actions : List MuxerAction) (calm : .write .error ∉ actions)
    (w' : WatchedMuxer) (run : (system ids).run (system ids).start actions = some w')
    (returned : w'.muxer.destructor = .returned) :
    ∃ before after w, actions = before ++ .destroyed :: after ∧ (system ids).run (system ids).start before = some w ∧
      w.muxer.destructor = .storing ∧
      w'.muxer.wire = ComPacket.code.stream (w'.muxer.written.map (·.packet)) ∧
      ((∀ packet ∈ w'.promised, packet ∈ w'.muxer.written) ↔
        ∀ packet ∈ w.promised, packet ∉ w.muxer.txQueues.get packet.packet.type) := by
  obtain ⟨before, action, after, w, middle, split, front, outside, step, inside, back⟩ :=
    TransitionSystem.run_crosses (P := fun w => w.muxer.destructor.Stored) run
      (by simp [system, DestructorPc.Stored]) (Or.inr (Or.inr returned))
  obtain ⟨moved, watched⟩ := step_muxer step
  obtain ⟨stores, rfl, flag, written, wire⟩ := (PacketMuxer.step_effect moved).stores outside inside
  have reach : (system ids).ReachUnder (fun w action => PacketMuxer.NoWriteError w.muxer action) w := by
    refine TransitionSystem.ReachUnder.start.run (fun a member s => ?_) front
    refine PacketMuxer.noWriteError_of_ne (fun failed => calm ?_)
    rw [split, ← failed]
    exact List.mem_append_left _ member
  have there := reach_muxer reach
  have lock := PacketMuxer.reach_lockInv there
  have hand := PacketMuxer.reach_handInv there
  have write := PacketMuxer.reach_writeInv there
  -- the destructor holds the lock, so no packet is in hand
  have free : w.muxer.send.holds = 0 :=
    lock.exclusive (t := .destructor) (u := .send) (by simp [PacketMuxer.holds, stores, DestructorPc.holds]) (by simp)
  have idle : w.muxer.send.sending = none := by
    by_contra sending
    obtain ⟨type, sending⟩ := Option.ne_none_iff_exists'.mp sending
    rw [SendPc.sending_holds sending] at free
    cases free
  have unwritten : w.muxer.send.unwritten = none := by
    by_contra writing
    obtain ⟨bytes, writing⟩ := Option.ne_none_iff_exists'.mp writing
    rw [SendPc.unwritten_holds writing] at free
    cases free
  have unset : w.muxer.transportError = false := by
    by_contra set
    exact outside ((PacketMuxer.reach_unstopped there).2 (by simpa using set))
  have even := write.even unwritten unset
  have whole := (PacketMuxer.reach_wireInv (fun _ _ met => met) there).whole (by
    intro type dead
    rw [dead] at idle
    cases idle)
  have same := run_stopped (reach.forget.next trivial step) back flag
    (by rcases inside with pc | pc | pc <;> rw [pc] <;> simp)
  obtain ⟨written', wire', promised'⟩ := same
  have kept : middle.promised = w.promised := by
    rw [watched]
    exact promised_watch w middle.muxer (by simp)
  refine ⟨before, after, w, split, front, stores, ?_, ?_⟩
  · rw [wire', wire, written', written, even]
    simpa [unwritten, PacketMuxer.sent] using whole
  · obtain ⟨f, -, related⟩ := (PacketMuxer.refines_fifo ids _).reach there
    rw [promised', kept, written', written, even, hand.idle idle]
    have posted := (reach_watchInv reach.forget).promised
    exact forall₂_congr (fun packet member => hand.popped_iff related (posted packet member))

/-- A call of `emplacePacket` that is not disturbed. -/
def postsPacket : List MuxerAction := .post 0 "A" (.moved [7]) :: List.replicate 4 (.user 0 true)

/-- The destructor is entered before the send thread has taken a step, and stops it. -/
def destroysEarly : List MuxerAction :=
  postsPacket ++ [.destroy, .destroyed, .destroyed, .destroyed] ++ List.replicate 9 .send ++ [.destroyed]

theorem shutdown_flushes_fails : ∃ ids : IdManager, IdManager.ofList ["A"] = some ids ∧
    ¬ ∀ actions w, .write .error ∉ actions → (system ids).run (system ids).start actions = some w →
      w.muxer.destructor = .returned → ∀ packet ∈ w.promised, packet ∈ w.muxer.written := by
  obtain ⟨ids, built, w, run, last⟩ : ∃ ids, IdManager.ofList ["A"] = some ids ∧
      ∃ w, (system ids).run (system ids).start destroysEarly = some w ∧
        (w.muxer.destructor, w.promised, w.muxer.written) = (.returned, [⟨0, 2, [7]⟩], []) :=
    ⟨_, rfl, _, rfl, rfl⟩
  obtain ⟨returned, promised, written⟩ :
      w.muxer.destructor = .returned ∧ w.promised = [⟨0, 2, [7]⟩] ∧ w.muxer.written = [] := by simpa using last
  refine ⟨ids, built, fun all => ?_⟩
  have flushed :=
    all destroysEarly w (by simp [destroysEarly, postsPacket]) run returned ⟨0, 2, [7]⟩ (by simp [promised])
  simp [written] at flushed

theorem shutdown_flushes_iff_early : ∃ (ids : IdManager) (w' : WatchedMuxer), IdManager.ofList ["A"] = some ids ∧
    w'.promised = [⟨0, 2, [7]⟩] ∧
    ∃ before after w, destroysEarly = before ++ .destroyed :: after ∧
      (system ids).run (system ids).start before = some w ∧ w.muxer.destructor = .storing ∧
      w'.muxer.wire = ComPacket.code.stream (w'.muxer.written.map (·.packet)) ∧
      ((∀ packet ∈ w'.promised, packet ∈ w'.muxer.written) ↔
        ∀ packet ∈ w.promised, packet ∉ w.muxer.txQueues.get packet.packet.type) := by
  obtain ⟨ids, built, w, run, returned, promised⟩ : ∃ ids, IdManager.ofList ["A"] = some ids ∧
      ∃ w, (system ids).run (system ids).start destroysEarly = some w ∧
        w.muxer.destructor = .returned ∧ w.promised = [⟨0, 2, [7]⟩] :=
    ⟨_, rfl, _, rfl, rfl, rfl⟩
  exact ⟨ids, w, built, promised,
    shutdown_flushes_iff ids destroysEarly (by simp [destroysEarly, postsPacket]) w run returned⟩

end WatchedMuxer

end PacketComms
