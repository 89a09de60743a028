import PacketComms.Lib.Liveness
import PacketComms.Muxer.Progress
import PacketComms.Muxer.Sendable
import Mathlib.Data.Prod.Lex

namespace PacketComms

namespace PacketMuxer

/-- The send thread takes a step. A write of no byte is none: the transport has not answered yet. -/
def SendThread (_ : PacketMuxer) : MuxerAction → Prop
  | .send | .wake _ | .iterate _ => True
  | .write answer => answer ≠ .count 0
  | _ => False

/-- A thread that posts goes on in its call. -/
def UserThread (i : Nat) (_ : PacketMuxer) : MuxerAction → Prop
  | .user j _ => j = i
  | _ => False

/-- The thread that destroys the muxer goes on. -/
def DestructorThread (_ : PacketMuxer) : MuxerAction → Prop
  | .destroyed => True
  | _ => False

/-- What the threads of the muxer do by themselves, without the transport. -/
def Internal (_ : PacketMuxer) : MuxerAction → Prop
  | .post .. | .destroy | .write _ => False
  | _ => True

/-- A fair scheduler, over a transport that does not stay at writes of no byte: whoever can go on again and again,
also where this takes the lock, goes on. -/
structure FairThreads {ids : IdManager} {C : PacketMuxer → MuxerAction → Prop} (e : (system ids).Execution C) :
    Prop where
  send : e.Fair SendThread
  users : ∀ i, e.Fair (UserThread i)
  destructor : e.Fair DestructorThread

end PacketMuxer

/-- How far the send thread is from the next wait, or from its end. `settled`: the flag is set, or there is nothing
to send. -/
def SendPc.stage (settled : Bool) : SendPc → Nat
  | .entered => 25
  | .hello pc => 20 + pc.rank
  | .lock => 19
  | .test => if settled then 3 else 18
  | .compare => if settled then 2 else 17
  | .waiting _ => 16
  | .relock _ => 15
  | .heartBeat pc => 6 + pc.rank
  | .scan => 5
  | .visit _ | .drain .. | .write .. | .assign .. | .pop .. => 4
  | .unlock => 1
  | .exited | .aborted _ => 0

/-- What is left of a pass: the packets in the queues, the queues to visit, and the packet in hand. -/
def SendPc.passLeft (total : Nat) : SendPc → Nat ×ₗ Nat ×ₗ Nat
  | .visit types => toLex (total, toLex (3 * types.length, 0))
  | .drain _ types => toLex (total, toLex (3 * types.length + 2, 0))
  | .write _ types fields _ =>
    toLex (total, toLex (3 * types.length + 1, 2 + fields.length + fields.flatten.length))
  | .assign _ types _ => toLex (total, toLex (3 * types.length + 1, 1))
  | .pop _ types => toLex (total, toLex (3 * types.length + 1, 0))
  | _ => toLex (0, toLex (0, 0))

namespace PacketMuxer

/-- The flag is set, or there is nothing to send. -/
def settled (m : PacketMuxer) : Bool := m.transportError || m.txQueues.total = 0

def distance (m : PacketMuxer) : Nat ×ₗ Nat ×ₗ Nat ×ₗ Nat :=
  toLex (m.send.stage m.settled, m.send.passLeft m.txQueues.total)

theorem distance_congr {m m' : PacketMuxer} (send : m'.send = m.send) (total : m'.txQueues.total = m.txQueues.total)
    (flag : m'.transportError = m.transportError) : m'.distance = m.distance := by
  simp only [distance, settled, send, total, flag]

/-- Where there is no lock to hold, it does not matter what there is to send. -/
theorem distance_notified {m m' : PacketMuxer} (outside : m.send.holds = 0) (send : m.send.Notified m'.send) :
    m'.distance = m.distance := by
  rcases send with same | ⟨n, waiting, notified⟩
  · simp only [distance, same]
    cases at_pc : m.send <;> simp_all [SendPc.holds, SendPc.stage, SendPc.passLeft]
  · simp [distance, waiting, notified, SendPc.stage, SendPc.passLeft]

/-- What the others can do: nothing that matters to a send thread with the lock, and a notification otherwise. -/
theorem Effect.stands {ids : IdManager} {m m' : PacketMuxer} {action : MuxerAction} (lock : LockInv m)
    (write : WriteInv m) (effect : Effect ids m action m') (other : ¬ SendThread m action) :
    m.send.Notified m'.send ∧ (0 < m.send.holds →
      m'.send = m.send ∧ m'.txQueues = m.txQueues ∧ m'.transportError = m.transportError ∧ m'.wire = m.wire) := by
  cases effect with
  | threw | called | destroy | destroyLocked | destroyUnlocked | destroyJoined =>
    exact ⟨Or.inl rfl, fun _ => ⟨rfl, rfl, rfl, rfl⟩⟩
  | @user i alloc pc next step =>
    refine ⟨step.send, fun held => ?_⟩
    have free : (m.users i).holds = 0 := lock.exclusive (t := .send) (u := .user i) held (by simp)
    generalize m.users i = call at step free
    cases step with
    | locked => exact ⟨rfl, rfl, rfl, rfl⟩
    | threw | emplaced | signalled | unlocked => cases free
  | destroyStored at_pc =>
    refine ⟨m.stored_send, fun held => ?_⟩
    have free : m.holds .send = 0 :=
      lock.exclusive (t := .destructor) (by simp [holds, at_pc, DestructorPc.holds]) (by simp)
    simp only [holds] at free
    omega
  | @accepted type types buffer fields ok n at_pc =>
    obtain rfl : n = 0 := by
      by_contra more
      exact other (by simpa [SendThread] using more)
    exact ⟨Or.inl (by simp [at_pc]), fun _ => ⟨by simp [at_pc], rfl, rfl, by simp⟩⟩
  | @interrupted type types buffer fields ok n at_pc _ flag =>
    rw [write.unset (Or.inr ⟨_, at_pc⟩)] at flag
    cases flag
  | failed => exact absurd (by simp [SendThread]) other
  | _ => exact absurd trivial other

/-- The others leave the send thread as far from its goal as it is. -/
theorem Effect.distance_stands {ids : IdManager} {m m' : PacketMuxer} {action : MuxerAction} (lock : LockInv m)
    (write : WriteInv m) (effect : Effect ids m action m') (other : ¬ SendThread m action) :
    m'.distance = m.distance := by
  obtain ⟨notified, held⟩ := effect.stands lock write other
  rcases Nat.eq_zero_or_pos m.send.holds with outside | inside
  · exact distance_notified outside notified
  · obtain ⟨send, queues, flag, -⟩ := held inside
    exact distance_congr send (by rw [queues]) flag

/-- A pass that is through has left nothing, or was stopped. -/
theorem settled_of_passed {ids : IdManager} {m : PacketMuxer} (reach : (system ids).Reach m)
    (at_pc : m.send = .visit []) : m.settled = true := by
  cases flag : m.transportError with
  | true => simp [settled, flag]
  | false =>
    have covered := reach_coverInv reach flag [] (by rw [at_pc]; rfl)
    have empty : m.txQueues.total = 0 := by
      refine KeyedLists.total_eq_zero (fun type => ?_)
      by_contra queued
      exact absurd (covered type queued) (by simp)
    simp [settled, empty]

/-- Every step of the send thread brings it nearer, except where it begins to wait with nothing to send. -/
theorem Effect.nears {ids : IdManager} {m m' : PacketMuxer} {action : MuxerAction} (reach : (system ids).Reach m)
    (effect : Effect ids m action m') (own : SendThread m action) : m'.distance < m.distance ∨
      m.send = .compare ∧ m.transportError = false ∧ m.txQueues.total = 0 ∧ m'.send = .waiting false := by
  cases effect with
  | threw | called | user | destroy | destroyLocked | destroyStored | destroyUnlocked | destroyJoined => cases own
  | hello at_pc step | heartBeat at_pc step =>
    have less := step.rank.1
    exact Or.inl (by simp [distance, at_pc, SendPc.stage, Prod.Lex.toLex_lt_toLex, less])
  | continues at_pc flag =>
    have same : ({ m with send := .compare } : PacketMuxer).settled = m.settled := rfl
    refine Or.inl ?_
    simp only [distance, same, at_pc, SendPc.stage, Prod.Lex.toLex_lt_toLex]
    cases m.settled <;> simp
  | stops at_pc flag => exact Or.inl (by simp [distance, settled, at_pc, flag, SendPc.stage, Prod.Lex.toLex_lt_toLex])
  | @waits l at_pc equal lock =>
    have flag := reach_compare reach at_pc
    by_cases none : m.txQueues.total = 0
    · exact Or.inr ⟨at_pc, flag, none, rfl⟩
    · exact Or.inl (by simp [distance, settled, at_pc, flag, none, SendPc.stage, Prod.Lex.toLex_lt_toLex])
  | busy at_pc different =>
    have flag := reach_compare reach at_pc
    have some : m.txQueues.total ≠ 0 := fun none =>
      different ((reach_countInv reach).equal ((reach_lockInv reach).calm_of_send at_pc Nat.one_pos rfl) none)
    exact Or.inl (by simp [distance, settled, at_pc, flag, some, SendPc.stage, Prod.Lex.toLex_lt_toLex])
  | passed at_pc =>
    have settled := settled_of_passed reach at_pc
    refine Or.inl ?_
    have same : ({ m with send := .test } : PacketMuxer).settled = true := settled
    simp [distance, at_pc, same, SendPc.stage, Prod.Lex.toLex_lt_toLex]
  | locked at_pc =>
    refine Or.inl ?_
    simp only [distance, at_pc, SendPc.stage, Prod.Lex.toLex_lt_toLex]
    split <;> simp
  | @popped type types packet packets at_pc queue =>
    have shrunk := m.txQueues.total_set type packets
    rw [queue, List.length_cons] at shrunk
    refine Or.inl ?_
    simp [distance, at_pc, SendPc.stage, SendPc.passLeft, Prod.Lex.toLex_lt_toLex]
    omega
  | @failed type types buffer fields ok at_pc =>
    refine Or.inl ?_
    simp [distance, at_pc, SendPc.stage, SendPc.passLeft, Prod.Lex.toLex_lt_toLex]
    omega
  | @accepted type types buffer fields ok n at_pc more =>
    have positive : n ≠ 0 := by simpa [SendThread] using own
    have bytes := List.length_pos_of_ne_nil more
    refine Or.inl ?_
    simp [distance, at_pc, SendPc.stage, SendPc.passLeft, Prod.Lex.toLex_lt_toLex]
    omega
  | @interrupted type types buffer fields ok n at_pc =>
    refine Or.inl ?_
    simp [distance, at_pc, SendPc.stage, SendPc.passLeft, Prod.Lex.toLex_lt_toLex]
    omega
  | entered at_pc | greeted at_pc | woken at_pc | relocked at_pc | timedOut at_pc | beaten at_pc
  | iterates at_pc | asserted at_pc | unlocked at_pc =>
    exact Or.inl (by simp [distance, at_pc, SendPc.stage, PostPc.rank, Prod.Lex.toLex_lt_toLex])
  | visits at_pc =>
    refine Or.inl ?_
    simp [distance, at_pc, SendPc.stage, SendPc.passLeft, Prod.Lex.toLex_lt_toLex]
    omega
  | drained at_pc | handed at_pc | skipped at_pc | finished at_pc | assigned at_pc =>
    exact Or.inl (by simp [distance, at_pc, SendPc.stage, SendPc.passLeft, Prod.Lex.toLex_lt_toLex])

end PacketMuxer

end PacketComms
