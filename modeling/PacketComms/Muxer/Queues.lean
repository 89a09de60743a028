import PacketComms.Muxer.Lock
import PacketComms.Lib.Fifo

namespace PacketComms

namespace MuxerEvent

def post? : MuxerEvent → Option SharedPacket
  | .posted _ packet => some packet
  | _ => none

def hand? : MuxerEvent → Option SharedPacket
  | .handed packet => some packet
  | _ => none

def pop? : MuxerEvent → Option SharedPacket
  | .popped packet => some packet
  | _ => none

end MuxerEvent

section Histories

variable (log : List MuxerEvent) (name : String) (packet : SharedPacket)

/-- The packets posted, in order. -/
def posts : List SharedPacket := log.filterMap MuxerEvent.post?

/-- The packets handed to `sendPacket`, in order. -/
def hands : List SharedPacket := log.filterMap MuxerEvent.hand?

/-- The packets popped, in order. -/
def pops : List SharedPacket := log.filterMap MuxerEvent.pop?

@[simp] theorem posts_posted : posts (log ++ [.posted name packet]) = posts log ++ [packet] := by
  simp [posts, MuxerEvent.post?]

@[simp] theorem posts_handed : posts (log ++ [.handed packet]) = posts log := by
  simp [posts, MuxerEvent.post?]

@[simp] theorem posts_popped : posts (log ++ [.popped packet]) = posts log := by
  simp [posts, MuxerEvent.post?]

@[simp] theorem hands_posted : hands (log ++ [.posted name packet]) = hands log := by
  simp [hands, MuxerEvent.hand?]

@[simp] theorem hands_handed : hands (log ++ [.handed packet]) = hands log ++ [packet] := by
  simp [hands, MuxerEvent.hand?]

@[simp] theorem hands_popped : hands (log ++ [.popped packet]) = hands log := by
  simp [hands, MuxerEvent.hand?]

@[simp] theorem pops_posted : pops (log ++ [.posted name packet]) = pops log := by
  simp [pops, MuxerEvent.pop?]

@[simp] theorem pops_handed : pops (log ++ [.handed packet]) = pops log := by
  simp [pops, MuxerEvent.pop?]

@[simp] theorem pops_popped : pops (log ++ [.popped packet]) = pops log ++ [packet] := by
  simp [pops, MuxerEvent.pop?]

theorem count_handed : log.count (.handed packet) = (hands log).count packet := by
  induction log with
  | nil => rfl
  | cons event log ih =>
    cases event <;> simp_all [hands, MuxerEvent.hand?, List.filterMap_cons, List.count_cons]

end Histories

/-- The packets posted under a type, in posting order. -/
def postsOf (type : PacketType) (log : List MuxerEvent) : List SharedPacket :=
  (posts log).filter (·.packet.type = type)

/-- The packets of a type that were handed to `sendPacket`, in order. -/
def handsOf (type : PacketType) (log : List MuxerEvent) : List SharedPacket :=
  (hands log).filter (·.packet.type = type)

/-- The packets of a type that were popped, in order. -/
def popsOf (type : PacketType) (log : List MuxerEvent) : List SharedPacket :=
  (pops log).filter (·.packet.type = type)

/-- What the history says is still in the queue of a type. -/
def queuedOf (type : PacketType) (log : List MuxerEvent) : List SharedPacket :=
  (postsOf type log).drop (popsOf type log).length

namespace PacketMuxer

/-- What a step does to the queues, to their history and to the packet being sent. -/
inductive QueueChange (m m' : PacketMuxer) : Prop
  | quiet : m'.send.sending = m.send.sending → m'.log = m.log → m'.txQueues.get = m.txQueues.get →
      m'.nextAddr = m.nextAddr → QueueChange m m'
  | posted {name packet} : m.send.sending = none → m'.send.sending = none →
      m'.log = m.log ++ [.posted name ⟨m.nextAddr, packet⟩] →
      m'.txQueues.get = Function.update m.txQueues.get packet.type
        (m.txQueues.get packet.type ++ [⟨m.nextAddr, packet⟩]) →
      m'.nextAddr = m.nextAddr + 1 → QueueChange m m'
  | handed {type packet packets} : m.send.sending = none → m'.send.sending = some type →
      m.txQueues.get type = packet :: packets → m'.log = m.log ++ [.handed packet] →
      m'.txQueues.get = m.txQueues.get → m'.nextAddr = m.nextAddr → QueueChange m m'
  | popped {type packet packets} : m.send.sending = some type → m'.send.sending = none →
      m.txQueues.get type = packet :: packets → m'.log = m.log ++ [.popped packet] →
      m'.txQueues.get = Function.update m.txQueues.get type packets → m'.nextAddr = m.nextAddr → QueueChange m m'

/-- Posts find the send thread outside `sendPacket`, because it holds the lock there. -/
theorem LockInv.not_sending {m : PacketMuxer} (inv : LockInv m) {i : Nat} (user : 0 < (m.users i).holds) :
    m.send.sending = none := by
  have free : m.send.holds = 0 := inv.exclusive (t := .user i) (u := .send) user nofun
  by_contra sending
  obtain ⟨type, sending⟩ := Option.ne_none_iff_exists'.mp sending
  rw [SendPc.sending_holds sending] at free
  omega

/-- A step of `emplacePacket`, seen in any state that differs from its result only in
the program counters. -/
theorem Emplaced.queueChange {m m' next : PacketMuxer} {t : MuxerThread} {alloc : Bool} {pc pc' : PostPc}
    (step : Emplaced m t alloc pc pc' m') (outside : 0 < pc.holds → m.send.sending = none)
    (sending : next.send.sending = m.send.sending) (log : next.log = m'.log)
    (txQueues : next.txQueues = m'.txQueues) (addr : next.nextAddr = m'.nextAddr) : QueueChange m next := by
  cases step with
  | locked | unlocked => exact .quiet sending log (by rw [txQueues]) addr
  | threw => exact .quiet sending log (by rw [txQueues]; funext k; simp) addr
  | @emplaced name type args packet _ built =>
    have same := ComPacket.make_type built
    subst same
    have before := outside Nat.one_pos
    exact .posted before (sending.trans before) log (by rw [txQueues]; rfl) addr
  | signalled =>
    exact .quiet sending (log.trans (notify_log _)) (by rw [txQueues, signalPacketPosted, notify_txQueues])
      (addr.trans (notify_nextAddr _))

theorem Effect.queueChange {ids : IdManager} {m m' : PacketMuxer} {action : MuxerAction} (inv : LockInv m)
    (effect : Effect ids m action m') : QueueChange m m' := by
  cases effect with
  | threw | called => exact .quiet rfl rfl rfl rfl
  | user step =>
    have sending : _ = m.send.sending := step.lock.2.2.2.2
    exact step.queueChange (fun user => inv.not_sending user) sending rfl rfl rfl
  | hello at_pc step | heartBeat at_pc step =>
    have outside : m.send.sending = none := by rw [at_pc]; rfl
    exact step.queueChange (fun _ => outside) outside.symm rfl rfl rfl
  | handed at_pc _ queue _ | asserted at_pc _ queue _ =>
    exact .handed (by rw [at_pc]; rfl) rfl queue rfl rfl rfl
  | popped at_pc queue => exact .popped (by rw [at_pc]; rfl) rfl queue rfl rfl rfl
  | destroyStored => exact .quiet (by simp) (by simp) (by simp) (by simp)
  | destroy | destroyLocked | destroyUnlocked | destroyJoined => exact .quiet rfl rfl rfl rfl
  | entered at_pc | greeted at_pc | locked at_pc | continues at_pc | stops at_pc | waits at_pc | busy at_pc
  | woken at_pc | relocked at_pc | timedOut at_pc | beaten at_pc | iterates at_pc | passed at_pc | visits at_pc
  | drained at_pc | skipped at_pc | failed at_pc | accepted at_pc | interrupted at_pc | finished at_pc
  | assigned at_pc | unlocked at_pc => exact .quiet (by rw [at_pc]; rfl) rfl rfl rfl

/-- The queues of the muxer and their history, seen as a family of plain queues. -/
structure Refines (m : PacketMuxer) (f : PacketType → Fifo SharedPacket) : Prop where
  posted : ∀ type, (f type).posted = postsOf type m.log
  taken : ∀ type, (f type).taken = popsOf type m.log
  queue : ∀ type, (f type).queue = m.txQueues.get type

theorem Refines.typed {m : PacketMuxer} {f : PacketType → Fifo SharedPacket} (related : Refines m f)
    {type : PacketType} {packet : SharedPacket} (member : packet ∈ m.txQueues.get type) :
    packet.packet.type = type := by
  rw [← related.queue] at member
  have posted := Fifo.mem_posted_of_mem_queue member
  rw [related.posted, postsOf, List.mem_filter] at posted
  simpa using posted.2

theorem Refines.queuedOf {m : PacketMuxer} {f : PacketType → Fifo SharedPacket} (related : Refines m f)
    (type : PacketType) : queuedOf type m.log = m.txQueues.get type := by
  rw [← related.queue, Fifo.queue_eq_drop, related.posted, related.taken]
  rfl

theorem Refines.balance {m : PacketMuxer} {f : PacketType → Fifo SharedPacket} (related : Refines m f)
    (type : PacketType) : popsOf type m.log ++ m.txQueues.get type = postsOf type m.log := by
  rw [← related.taken, ← related.queue, ← related.posted]
  exact (f type).balance

/-- Whatever the threads do, the queues only ever take a post at the back or give up
their front. -/
theorem refines_fifo (ids : IdManager) (C : PacketMuxer → MuxerAction → Prop) :
    TransitionSystem.Simulation (system ids) (Fifo.family PacketType SharedPacket) C (fun _ _ => True) Refines where
  start := ⟨fun _ => rfl, fun _ => rfl, fun _ => rfl⟩
  step := by
    intro m action m' f reach related _ run
    cases (step_effect run).queueChange (reach_lockInv reach) with
    | quiet _ log get _ =>
      refine Or.inl ⟨?_, ?_, ?_⟩
      · rw [log]; exact related.posted
      · rw [log]; exact related.taken
      · rw [get]; exact related.queue
    | @posted name packet _ _ log get _ =>
      refine Or.inr ⟨.post packet.type ⟨m.nextAddr, packet⟩, _, trivial, rfl, ?_, ?_, ?_⟩
      all_goals
        intro type
        by_cases same : type = packet.type
        · subst same
          simp [log, get, postsOf, popsOf, ← related.queue,
            related.posted, related.taken]
        · simp [log, get, same, Ne.symm same, postsOf, popsOf,
            related.queue, related.posted, related.taken]
    | handed _ _ _ log get _ =>
      refine Or.inl ⟨?_, ?_, ?_⟩
      · intro type
        simp [log, postsOf, related.posted]
      · intro type
        simp [log, popsOf, related.taken]
      · rw [get]; exact related.queue
    | @popped type packet packets _ _ queue log get _ =>
      have typed := related.typed (show packet ∈ m.txQueues.get type by rw [queue]; exact List.mem_cons_self)
      obtain ⟨rest, took, tail⟩ := Fifo.take_of_cons ((related.queue type).trans queue)
      obtain ⟨-, posted, taken⟩ := Fifo.take_eq_some took
      refine Or.inr ⟨.take type, Function.update f type rest, trivial,
        by simp only [Fifo.family, took, Option.map_some], ?_, ?_, ?_⟩
      all_goals
        intro other
        by_cases same : other = type
        · subst same
          simp [log, get, posted, taken, tail, typed, postsOf, popsOf,
            related.posted, related.taken]
        · have different : packet.packet.type ≠ other := fun eq => same (eq.symm.trans typed)
          simp [log, get, same, different, postsOf, popsOf, related.queue,
            related.posted, related.taken]

end PacketMuxer

end PacketComms
