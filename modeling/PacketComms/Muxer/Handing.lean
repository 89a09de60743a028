import PacketComms.Lib.History
import PacketComms.Muxer.Queues

namespace PacketComms

/-- The event that follows `before` in a history was preceded at once by the hand over of
the same packet, and that one was the front of its queue at the time. -/
def JustHanded (before : List MuxerEvent) (packet : SharedPacket) : Prop :=
  ∃ earlier, before = earlier ++ [.handed packet] ∧ (queuedOf packet.packet.type earlier).head? = some packet

namespace PacketMuxer

/-- Between two packets everything handed was popped; while one is being sent it is the
last thing that happened to the queues and still their front. -/
structure HandInv (m : PacketMuxer) : Prop where
  fresh : ∀ packet ∈ posts m.log, packet.addr < m.nextAddr
  distinct : (posts m.log).Nodup
  idle : m.send.sending = none → hands m.log = pops m.log
  busy : ∀ type, m.send.sending = some type → ∃ packet packets before,
    m.txQueues.get type = packet :: packets ∧ m.log = before ++ [.handed packet] ∧
    hands before = pops before ∧ JustHanded m.log packet
  adjacent : ∀ before packet, before ++ [.popped packet] <+: m.log → JustHanded before packet

theorem QueueChange.handInv {m m' : PacketMuxer} {f : PacketType → Fifo SharedPacket} (related : Refines m f)
    (inv : HandInv m) (change : QueueChange m m') : HandInv m' := by
  cases change with
  | quiet sending log get addr =>
    refine ⟨?_, ?_, ?_, ?_, ?_⟩
    · rw [log, addr]; exact inv.fresh
    · rw [log]; exact inv.distinct
    · rw [sending, log]; exact inv.idle
    · rw [sending, log, get]; exact inv.busy
    · rw [log]; exact inv.adjacent
  | @posted name packet before after log get addr =>
    have grown : posts m'.log = posts m.log ++ [⟨m.nextAddr, packet⟩] := by
      simp [log]
    have fresh : ⟨m.nextAddr, packet⟩ ∉ posts m.log := fun member =>
      Nat.lt_irrefl _ (inv.fresh _ member)
    refine ⟨?_, ?_, ?_, ?_, ?_⟩
    · intro other member
      rw [grown, List.mem_append, List.mem_singleton] at member
      rw [addr]
      rcases member with old | rfl
      · exact Nat.lt_succ_of_lt (inv.fresh other old)
      · exact Nat.lt_succ_self _
    · rw [grown, List.nodup_append]
      refine ⟨inv.distinct, List.nodup_singleton _, ?_⟩
      intro a old b new same
      rw [List.mem_singleton.mp new] at same
      exact fresh (same ▸ old)
    · intro _
      simpa [log] using inv.idle before
    · intro type busy
      rw [after] at busy
      cases busy
    · intro earlier other step
      rw [log] at step
      exact inv.adjacent earlier other (List.prefix_of_concat_ne step (by simp))
  | @handed type packet packets before after queue log get addr =>
    have idle := inv.idle before
    have typed := related.typed (by rw [queue]; exact List.mem_cons_self)
    have just : JustHanded m'.log packet :=
      ⟨m.log, log, by rw [typed, related.queuedOf, queue]; rfl⟩
    refine ⟨?_, ?_, ?_, ?_, ?_⟩
    · simpa [log, addr] using inv.fresh
    · simpa [log] using inv.distinct
    · intro none
      rw [after] at none
      cases none
    · intro other busy
      cases Option.some.inj (after.symm.trans busy)
      exact ⟨packet, packets, m.log, by rw [get, queue], log, idle, just⟩
    · intro earlier other step
      rw [log] at step
      exact inv.adjacent earlier other (List.prefix_of_concat_ne step (by simp))
  | @popped type packet packets before after queue log get addr =>
    obtain ⟨front, rest, earlier, queue', log', balanced, just⟩ := inv.busy type before
    cases queue'.symm.trans queue
    refine ⟨?_, ?_, ?_, ?_, ?_⟩
    · simpa [log, addr] using inv.fresh
    · simpa [log] using inv.distinct
    · intro _
      rw [log, hands_popped, pops_popped, log', hands_handed, pops_handed, balanced]
    · intro type busy
      rw [after] at busy
      cases busy
    · intro older other step
      rw [log] at step
      rcases List.concat_prefix_concat step with ⟨rfl, event⟩ | old
      · cases event
        exact just
      · exact inv.adjacent older other old

theorem reach_handInv {ids : IdManager} {C : PacketMuxer → MuxerAction → Prop} {m : PacketMuxer}
    (reach : (system ids).ReachUnder C m) : HandInv m := by
  refine reach.invariant ⟨by simp [system, posts], by simp [system, posts], fun _ => rfl, nofun, ?_⟩ ?_
  · intro before packet impossible
    simp [system] at impossible
  · intro s a s' before inv _ run
    obtain ⟨f, -, related⟩ := (refines_fifo ids C).reach before
    exact ((step_effect run).queueChange (reach_lockInv before)).handInv related inv

/-- The packets handed are those popped, and the one that is being sent. -/
theorem HandInv.hands_eq {m : PacketMuxer} (inv : HandInv m) : hands m.log = pops m.log ++
    (match m.send.sending with
    | none => []
    | some type => (m.txQueues.get type).take 1) := by
  cases sending : m.send.sending with
  | none => simpa using inv.idle sending
  | some type =>
    obtain ⟨packet, packets, before, queue, log, balanced, -⟩ := inv.busy type sending
    simp [log, balanced, queue]

/-- Type by type, the packets handed over are the first of those posted. -/
theorem HandInv.hands_sub {m : PacketMuxer} {f : PacketType → Fifo SharedPacket} (related : Refines m f)
    (inv : HandInv m) (type : PacketType) :
    handsOf type m.log <+: postsOf type m.log := by
  have balance : popsOf type m.log ++ m.txQueues.get type = postsOf type m.log := by
    rw [← related.taken, ← related.queue, ← related.posted]
    exact (f type).balance
  rw [handsOf, inv.hands_eq, List.filter_append, ← balance]
  refine List.prefix_append_right_inj _ |>.mpr ?_
  cases sending : m.send.sending with
  | none => exact List.nil_prefix
  | some other =>
    by_cases same : other = type
    · subst same
      have typed : ∀ packet ∈ (m.txQueues.get other).take 1, packet.packet.type = other :=
        fun packet member => related.typed (List.mem_of_mem_take member)
      dsimp only
      rw [List.filter_eq_self.mpr (by simpa using typed)]
      exact List.take_prefix _ _
    · have none : ((m.txQueues.get other).take 1).filter (·.packet.type = type) = [] := by
        refine List.filter_eq_nil_iff.mpr (fun packet member => ?_)
        simpa [related.typed (List.mem_of_mem_take member)] using same
      dsimp only
      rw [none]
      exact List.nil_prefix

/-- A packet that was popped is not in a queue any more, so it was handed over once. -/
theorem HandInv.handed_once {m : PacketMuxer} {f : PacketType → Fifo SharedPacket} (related : Refines m f)
    (inv : HandInv m) {packet : SharedPacket} (popped : packet ∈ pops m.log) :
    m.log.count (.handed packet) = 1 := by
  have balance := (f packet.packet.type).balance
  rw [related.taken, related.queue, related.posted] at balance
  have distinct : (popsOf packet.packet.type m.log ++ m.txQueues.get packet.packet.type).Nodup := by
    rw [balance]
    exact inv.distinct.filter _
  have mine : packet ∈ popsOf packet.packet.type m.log := by simp [popsOf, popped]
  have once : (pops m.log).count packet = 1 := by
    have filtered : (popsOf packet.packet.type m.log).count packet = (pops m.log).count packet :=
      List.count_filter (by simp)
    rw [← filtered]
    exact List.count_eq_one_of_mem (distinct.of_append_left) mine
  rw [count_handed, inv.hands_eq, List.count_append, once]
  cases sending : m.send.sending with
  | none => rfl
  | some type =>
    suffices packet ∉ (m.txQueues.get type).take 1 by simp [List.count_eq_zero_of_not_mem this]
    intro member
    have queued := List.mem_of_mem_take member
    have typed := related.typed queued
    subst typed
    exact (List.disjoint_of_nodup_append distinct) mine queued

/-- In every state of every run, for every type, the packets popped followed by those
still queued are those posted; and each packet popped was handed to `sendPacket` once,
just before, while it was the front of its queue. -/
theorem queues_fifo (ids : IdManager) (m : PacketMuxer) (reach : (system ids).Reach m) :
    (∀ type, popsOf type m.log ++ m.txQueues.get type = postsOf type m.log) ∧
    (∀ before packet after, m.log = before ++ .popped packet :: after →
      m.log.count (.handed packet) = 1 ∧ JustHanded before packet) := by
  obtain ⟨f, -, related⟩ := (refines_fifo ids _).reach reach
  have inv := reach_handInv reach
  refine ⟨fun type => ?_, ?_⟩
  · rw [← related.taken, ← related.queue, ← related.posted]
    exact (f type).balance
  · intro before packet after log
    refine ⟨inv.handed_once related ?_, inv.adjacent before packet ⟨after, ?_⟩⟩
    · simp [log, pops, MuxerEvent.pop?]
    · rw [log, List.append_assoc, List.singleton_append]

/-- A run in which a packet of type 2 is posted before the send thread has taken its
first step, and is written before the Hello packet. -/
def earlyPost : List MuxerAction :=
  [.post 0 "A" (.moved [7]), .user 0 true, .user 0 true, .user 0 true, .user 0 true] ++
  List.replicate 9 .send ++ [.iterate [2, 1], .send, .send] ++
  [.write (.count 4), .send, .write (.count 4), .send, .write (.count 1), .send, .send, .send, .send]

/-- What `earlyPost` leaves in the history. -/
def earlyPostLog : List MuxerEvent :=
  [.posted "A" ⟨0, 2, [7]⟩, .posted IdManager.controlString ⟨1, ControlMessage.hello.packet⟩,
    .handed ⟨0, 2, [7]⟩, .popped ⟨0, 2, [7]⟩]

theorem queues_fifo_earlyPost : ∃ (ids : IdManager) (m : PacketMuxer), IdManager.ofList ["A"] = some ids ∧
    m.log = earlyPostLog ∧
    (∀ type, popsOf type m.log ++ m.txQueues.get type = postsOf type m.log) ∧
    (∀ before packet after, m.log = before ++ .popped packet :: after →
      m.log.count (.handed packet) = 1 ∧ JustHanded before packet) := by
  obtain ⟨ids, built, m, reach, log⟩ : ∃ ids, IdManager.ofList ["A"] = some ids ∧
      ∃ m, (system ids).Reach m ∧ m.log = earlyPostLog :=
    ⟨_, rfl, TransitionSystem.ReachUnder.start.computed PacketMuxer.log earlyPost (fun _ _ _ => trivial) (by decide)⟩
  exact ⟨ids, m, built, log, queues_fifo ids m reach⟩

end PacketMuxer

end PacketComms
