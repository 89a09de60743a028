import PacketComms.Muxer.Fairness

namespace PacketComms.PacketMuxer

/-- Nothing is queued, nobody is in a call, and the send thread waits. -/
structure Parked (m : PacketMuxer) : Prop where
  send : m.send = .waiting false
  free : m.txLock = .free
  even : m.numPosted = m.numSent
  calm : m.transportError = false
  empty : ∀ type, m.txQueues.get type = []
  users : ∀ i, m.users i = .idle
  alone : m.destructor = .notCalled

/-- The send thread wakes up, finds nothing in any of the queues, and waits again. -/
def idleTurn (types : List PacketType) : List MuxerAction :=
  [.wake false, .send, .iterate types] ++ types.flatMap (fun _ => [.send, .send]) ++ [.send, .send, .send]

theorem visits_nothing {ids : IdManager} {m : PacketMuxer} (empty : ∀ type, m.txQueues.get type = [])
    (types : List PacketType) :
    (system ids).run { m with send := .visit types } (types.flatMap (fun _ => [.send, .send])) =
      some { m with send := .visit [] } := by
  induction types with
  | nil => rfl
  | cons type types ih =>
    have first :
        step ids { m with send := .visit (type :: types) } .send = some { m with send := .drain type types } := rfl
    have second : step ids { m with send := .drain type types } .send = some { m with send := .visit types } :=
      Effect.run_send (Effect.drained rfl (Or.inr (empty type)))
    simp only [List.flatMap_cons, List.cons_append, List.nil_append, TransitionSystem.run, system, first, second,
      Option.bind_some]
    exact ih

theorem Parked.idles {ids : IdManager} {m : PacketMuxer} (parked : m.Parked) :
    (system ids).run m (idleTurn m.txQueues.keys) = some m := by
  obtain ⟨send, free, even, calm, empty, -, -⟩ := parked
  have wakes : (system ids).run m [.wake false, .send, .iterate m.txQueues.keys] =
      some { m with txLock := .held .send 0, send := .visit m.txQueues.keys } := by
    simp [TransitionSystem.run, system, step, sendStep, send, free, RecursiveMutex.acquire]
  have waits :
      (system ids).run { m with txLock := .held .send 0, send := .visit [] } [.send, .send, .send] = some m := by
    simp [TransitionSystem.run, system, step, sendStep, calm, even, RecursiveMutex.release]
    cases m
    simp_all
  have visits : (system ids).run { m with txLock := .held .send 0, send := .visit m.txQueues.keys }
      (m.txQueues.keys.flatMap (fun _ => [.send, .send])) =
        some { m with txLock := .held .send 0, send := .visit [] } :=
    visits_nothing (m := { m with txLock := .held .send 0 }) empty m.txQueues.keys
  exact TransitionSystem.run_trans (TransitionSystem.run_trans wakes visits) waits

/-- The send thread goes on, and writes nothing. -/
def Loops : MuxerAction → Prop
  | .send | .wake _ | .iterate _ => True
  | _ => False

theorem idleTurn_loops (types : List PacketType) : ∀ a ∈ idleTurn types, Loops a := by
  intro a member
  simp only [idleTurn, List.mem_append, List.mem_flatMap, List.mem_cons, List.not_mem_nil, or_false] at member
  rcases member with ((rfl | rfl | rfl) | ⟨-, -, rfl | rfl⟩) | rfl | rfl | rfl <;> trivial

theorem Loops.keeps {ids : IdManager} {m m' : PacketMuxer} {action : MuxerAction} (loops : Loops action)
    (run : step ids m action = some m') : m'.wire = m.wire ∧ m'.users = m.users ∧ m'.destructor = m.destructor := by
  cases step_effect run with
  | hello _ step | heartBeat _ step => cases step <;> simp [signalPacketPosted]
  | user | threw | called | failed | accepted | interrupted | destroy | destroyLocked | destroyStored | destroyUnlocked
    | destroyJoined => cases loops
  | _ => exact ⟨rfl, rfl, rfl⟩

/-- What the send thread does leaves the other threads where they are. -/
theorem Effect.leaves_others {ids : IdManager} {m m' : PacketMuxer} {action : MuxerAction}
    (effect : Effect ids m action m') (own : SendThread m action) :
    m'.users = m.users ∧ m'.destructor = m.destructor := by
  cases effect with
  | threw | called | user | destroy | destroyLocked | destroyStored | destroyUnlocked | destroyJoined => cases own
  | hello _ step | heartBeat _ step =>
    obtain ⟨-, users, destructor, -⟩ := step.lock
    exact ⟨users, destructor⟩
  | _ => exact ⟨rfl, rfl⟩

section Endless

open TransitionSystem (Execution)

variable {ids : IdManager} {C : PacketMuxer → MuxerAction → Prop} {actions : List MuxerAction} {m : PacketMuxer}

/-- Where the turns begin: a run that leaves the muxer parked, and then the loop again and again. -/
def begun (m : PacketMuxer) : Nat → PacketMuxer
  | 0 => {}
  | _ + 1 => m

def turn (actions : List MuxerAction) (m : PacketMuxer) : Nat → List MuxerAction
  | 0 => actions
  | _ + 1 => idleTurn m.txQueues.keys

theorem turn_busy (nonempty : 0 < actions.length) (k : Nat) : 0 < (turn actions m k).length := by
  cases k with
  | zero => exact nonempty
  | succ n => simp [turn, idleTurn]

theorem turn_met (met : Execution.Meets (system ids) C {} actions) (loops : ∀ m a, Loops a → C m a) (k : Nat) :
    Execution.Meets (system ids) C (m.begun k) (turn actions m k) := by
  cases k with
  | zero => exact met
  | succ n => exact .of_forall (fun a member m => loops m a (idleTurn_loops _ a member)) _

theorem turn_run (run : (system ids).run {} actions = some m) (parked : m.Parked) (k : Nat) :
    (system ids).run (m.begun k) (turn actions m k) = some (m.begun (k + 1)) := by
  cases k with
  | zero => exact run
  | succ n => exact parked.idles

def turns (nonempty : 0 < actions.length) (met : Execution.Meets (system ids) C {} actions)
    (run : (system ids).run {} actions = some m) (parked : m.Parked) (loops : ∀ m a, Loops a → C m a) :
    Execution.Turns (system ids) C :=
  ⟨m.begun, turn actions m, rfl, turn_busy nonempty, turn_met met loops, turn_run run parked⟩

/-- Where only the send thread is at work, all threads are treated fairly. -/
theorem fair_turns (plan : Execution.Turns (system ids) C)
    (apart : ∀ k, (∀ i, (plan.begun (k + 1)).users i = .idle) ∧ (plan.begun (k + 1)).destructor = .notCalled)
    (alone : ∀ k, ∀ a ∈ plan.turn (k + 1), ∀ m, SendThread m a) : FairThreads plan.execution := by
  have still (k j : Nat) (inside : j < (plan.turn (k + 1)).length) :
      (∀ i, (plan.stateAt (k + 1) j).users i = .idle) ∧ (plan.stateAt (k + 1) j).destructor = .notCalled := by
    refine plan.stateAt_keeps (P := fun m => (∀ i, m.users i = .idle) ∧ m.destructor = .notCalled) (apart k) ?_
      (Nat.le_of_lt inside)
    intro m a m' now member step
    obtain ⟨users, destructor⟩ := (step_effect step).leaves_others (alone k a member m)
    exact ⟨users ▸ now.1, destructor ▸ now.2⟩
  refine ⟨plan.fair_of_taken (fun k => ?_), fun i => ?_, ?_⟩
  · exact ⟨_, List.getElem_mem (plan.busy (k + 1)), alone k _ (List.getElem_mem _)⟩
  · refine plan.fair_of_never (fun k j inside => ?_)
    rintro ⟨a, m', -, own, step⟩
    cases step_effect step with
    | user emplace =>
      rw [(still k j inside).1] at emplace
      cases emplace
    | _ => cases own
  · refine plan.fair_of_never (fun k j inside => ?_)
    rintro ⟨a, m', -, own, step⟩
    cases step_effect step with
    | destroyLocked at_pc | destroyStored at_pc | destroyUnlocked at_pc | destroyJoined at_pc =>
      rw [(still k j inside).2] at at_pc
      cases at_pc
    | _ => cases own

/-- Every run that leaves the muxer parked goes on for ever, fair to all threads, while nothing happens. -/
theorem exists_endless (nonempty : 0 < actions.length) (met : Execution.Meets (system ids) C {} actions)
    (run : (system ids).run {} actions = some m) (parked : m.Parked) (loops : ∀ m a, Loops a → C m a) :
    ∃ e : (system ids).Execution C, FairThreads e ∧ ∀ k, ∃ n, k ≤ n ∧ e.state n = m := by
  let plan := turns nonempty met run parked loops
  have alone (k : Nat) (a : MuxerAction) (member : a ∈ plan.turn (k + 1)) (m : PacketMuxer) : SendThread m a := by
    have loops := idleTurn_loops _ a member
    cases a with
    | send | wake | iterate => trivial
    | _ => cases loops
  refine ⟨plan.execution, fair_turns plan (fun _ => ⟨parked.users, parked.alone⟩) alone, fun k => ?_⟩
  obtain ⟨n, later, now⟩ := plan.execution_begun (k + 1)
  exact ⟨n, Nat.le_of_succ_le later, now⟩

end Endless

end PacketComms.PacketMuxer
