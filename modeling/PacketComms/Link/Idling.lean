import PacketComms.Link.Fairness

namespace PacketComms

namespace PacketDemuxer

/-- Nothing is to be read, and the receive thread is about to look again. -/
structure Parked (d : PacketDemuxer) : Prop where
  receive : d.receive = .loop
  calm : d.transportError = false
  nothing : d.input = []
  alone : d.destructor = .notCalled

/-- The receive thread looks, and finds nothing. -/
def idleTurn : List DemuxerAction := [.receive, .ready false]

/-- The demuxer after `n` such turns. -/
def waited (d : PacketDemuxer) (n : Nat) : PacketDemuxer := { d with waits := d.waits ++ List.replicate n false }

theorem Parked.waited {d : PacketDemuxer} (parked : d.Parked) (n : Nat) : (d.waited n).Parked :=
  ⟨parked.receive, parked.calm, parked.nothing, parked.alone⟩

theorem arrive_nil (ids : IdManager) (d : PacketDemuxer) : (step ids d (.arrive [])).getD d = d := by
  by_cases aborted : d.receive = .aborted
  · simp [step, aborted]
  · rw [arrive_eq aborted]
    simp

end PacketDemuxer

namespace Link

structure Parked (l : Link) : Prop where
  muxer : l.muxer.Parked
  demuxer : l.demuxer.Parked

/-- Both loops turn once. -/
def idleTurn (types : List PacketType) : List LinkAction :=
  (PacketMuxer.idleTurn types).map .muxer ++ PacketDemuxer.idleTurn.map .demuxer

def waited (l : Link) (n : Nat) : Link := { l with demuxer := l.demuxer.waited n }

/-- What a turn of the loops consists of. -/
def Loops : LinkAction → Prop
  | .muxer a => PacketMuxer.Loops a
  | .demuxer a => a ∈ PacketDemuxer.idleTurn

theorem idleTurn_loops (types : List PacketType) : ∀ a ∈ idleTurn types, Loops a := by
  intro a member
  simp only [idleTurn, List.mem_append, List.mem_map] at member
  rcases member with ⟨a, member, rfl⟩ | ⟨a, member, rfl⟩
  · exact PacketMuxer.idleTurn_loops types a member
  · exact member

theorem run_muxer {ids : IdManager} {l : Link} {m : PacketMuxer} {actions : List MuxerAction}
    (loops : ∀ a ∈ actions, PacketMuxer.Loops a) (run : (PacketMuxer.system ids).run l.muxer actions = some m) :
    (system ids).run l (actions.map .muxer) = some { l with muxer := m } := by
  induction actions generalizing l with
  | nil =>
    cases Option.some.inj run
    rfl
  | cons a actions ih =>
    obtain ⟨middle, moves, rest⟩ := Option.bind_eq_some_iff.mp run
    have moved : PacketMuxer.step ids l.muxer a = some middle := moves
    have wire := ((loops a List.mem_cons_self).keeps moved).1
    have first : step ids l (.muxer a) = some { l with muxer := middle } := by
      simp only [step, moved, Option.map_some, wire, List.drop_length, PacketDemuxer.arrive_nil]
    simp only [List.map_cons, TransitionSystem.run, system, first, Option.bind_some]
    exact ih (fun b member => loops b (List.mem_cons_of_mem a member)) rest

theorem Parked.idles {ids : IdManager} {l : Link} (parked : l.Parked) (n : Nat) :
    (system ids).run (l.waited n) (idleTurn l.muxer.txQueues.keys) = some (l.waited (n + 1)) := by
  have muxer :
      (system ids).run (l.waited n) ((PacketMuxer.idleTurn l.muxer.txQueues.keys).map .muxer) = some (l.waited n) :=
    run_muxer (l := l.waited n) (PacketMuxer.idleTurn_loops _) parked.muxer.idles
  refine TransitionSystem.run_trans muxer ?_
  obtain ⟨receive, calm, -, -⟩ := parked.demuxer
  simp [PacketDemuxer.idleTurn, TransitionSystem.run, system, step, PacketDemuxer.step,
    PacketDemuxer.receiveStep, waited, PacketDemuxer.waited, receive, calm, List.replicate_succ']

/-- No thread but the two loops has anything to do. -/
structure Still (l : Link) : Prop where
  users : ∀ i, l.muxer.users i = .idle
  muxer : l.muxer.destructor = .notCalled
  demuxer : l.demuxer.destructor = .notCalled
  nothing : l.demuxer.input = []

theorem Parked.still {l : Link} (parked : l.Parked) (n : Nat) : (l.waited n).Still :=
  ⟨parked.muxer.users, parked.muxer.alone, parked.demuxer.alone, parked.demuxer.nothing⟩

theorem Still.keeps {ids : IdManager} {l l' : Link} {action : LinkAction} (still : l.Still) (loops : Loops action)
    (run : step ids l action = some l') : l'.Still := by
  obtain ⟨users, muxer, demuxer, nothing⟩ := still
  rcases step_cases run with ⟨a, rfl, moved, arrives⟩ | ⟨a, rfl, -, moved, same⟩
  · obtain ⟨wire, users', destructor⟩ := PacketMuxer.Loops.keeps loops moved
    rw [wire, List.drop_length, PacketDemuxer.arrive_nil] at arrives
    exact ⟨users' ▸ users, destructor ▸ muxer, arrives ▸ demuxer, arrives ▸ nothing⟩
  · have kept : l'.demuxer.destructor = l.demuxer.destructor ∧ l'.demuxer.input = l.demuxer.input := by
      have effect := PacketDemuxer.step_effect moved
      generalize l'.demuxer = d at effect ⊢
      simp only [Loops, PacketDemuxer.idleTurn, List.mem_cons, List.not_mem_nil, or_false] at loops
      rcases loops with rfl | rfl <;> cases effect <;> exact ⟨rfl, rfl⟩
    exact ⟨same ▸ users, same ▸ muxer, kept.1 ▸ demuxer, kept.2 ▸ nothing⟩

section Still

theorem muxer_moves {ids : IdManager} {l l' : Link} {a : MuxerAction} (run : (system ids).step l (.muxer a) = some l') :
    PacketMuxer.step ids l.muxer a = some l'.muxer := by
  have moves : step ids l (.muxer a) = some l' := run
  rcases step_cases moves with ⟨b, same, moved, -⟩ | ⟨b, same, -⟩
  · cases same
    exact moved
  · cases same

theorem demuxer_moves {ids : IdManager} {l l' : Link} {a : DemuxerAction}
    (run : (system ids).step l (.demuxer a) = some l') : PacketDemuxer.step ids l.demuxer a = some l'.demuxer := by
  have moves : step ids l (.demuxer a) = some l' := run
  rcases step_cases moves with ⟨b, same, -⟩ | ⟨b, same, -, moved, -⟩
  · cases same
  · cases same
    exact moved

variable {ids : IdManager} {C : Link → LinkAction → Prop} {l : Link}

theorem Still.no_user (still : l.Still) (i : Nat) :
    ¬ (system ids).Enabled C (OnMuxer (PacketMuxer.UserThread i)) l := by
  rintro ⟨-, l', -, ⟨a, rfl, kind⟩, run⟩
  have effect := PacketMuxer.step_effect (muxer_moves run)
  generalize l'.muxer = m at effect
  cases effect with
  | user step =>
    rw [still.users] at step
    cases step
  | _ => cases kind

theorem Still.no_destroyed (still : l.Still) : ¬ (system ids).Enabled C (OnMuxer PacketMuxer.DestructorThread) l := by
  rintro ⟨-, l', -, ⟨a, rfl, kind⟩, run⟩
  have effect := PacketMuxer.step_effect (muxer_moves run)
  generalize l'.muxer = m at effect
  cases effect with
  | destroyLocked at_pc | destroyStored at_pc | destroyUnlocked at_pc | destroyJoined at_pc =>
    rw [still.muxer] at at_pc
    cases at_pc
  | _ => cases kind

theorem Still.no_notice (still : l.Still) : ¬ (system ids).Enabled C (OnDemuxer PacketDemuxer.Notices) l := by
  rintro ⟨-, l', -, ⟨a, rfl, some, -⟩, -⟩
  exact some still.nothing

theorem Still.no_read (still : l.Still) : ¬ (system ids).Enabled C (OnDemuxer PacketDemuxer.Reads) l := by
  rintro ⟨-, l', -, ⟨a, rfl, n, positive, rfl⟩, run⟩
  have effect := PacketDemuxer.step_effect (demuxer_moves run)
  generalize l'.demuxer = d at effect
  cases effect with
  | got _ _ bound =>
    rw [still.nothing, List.length_nil] at bound
    omega

theorem Still.no_destroy (still : l.Still) : ¬ (system ids).Enabled C (OnDemuxer PacketDemuxer.DestructorThread) l := by
  rintro ⟨-, l', -, ⟨a, rfl, called, -⟩, -⟩
  exact called still.demuxer

end Still

section Endless

open TransitionSystem (Execution)

variable {ids : IdManager} {C : Link → LinkAction → Prop} {actions : List LinkAction} {l : Link}

/-- Where the turns begin: a run that leaves the link parked, and then turn after turn of the two loops. -/
def begun (l : Link) : Nat → Link
  | 0 => {}
  | n + 1 => l.waited n

def turn (actions : List LinkAction) (l : Link) : Nat → List LinkAction
  | 0 => actions
  | _ + 1 => idleTurn l.muxer.txQueues.keys

theorem turn_busy (nonempty : 0 < actions.length) (k : Nat) : 0 < (turn actions l k).length := by
  cases k with
  | zero => exact nonempty
  | succ n => simp [turn, idleTurn, PacketMuxer.idleTurn]

theorem turn_met (met : Execution.Meets (system ids) C {} actions) (loops : ∀ l a, Loops a → C l a) (k : Nat) :
    Execution.Meets (system ids) C (l.begun k) (turn actions l k) := by
  cases k with
  | zero => exact met
  | succ n => exact .of_forall (fun a member l => loops l a (idleTurn_loops _ a member)) _

theorem turn_run (run : (system ids).run {} actions = some l) (parked : l.Parked) (k : Nat) :
    (system ids).run (l.begun k) (turn actions l k) = some (l.begun (k + 1)) := by
  cases k with
  | zero => simpa [begun, turn, waited, PacketDemuxer.waited] using run
  | succ n => exact parked.idles n

def turns (nonempty : 0 < actions.length) (met : Execution.Meets (system ids) C {} actions)
    (run : (system ids).run {} actions = some l) (parked : l.Parked) (loops : ∀ l a, Loops a → C l a) :
    Execution.Turns (system ids) C :=
  ⟨l.begun, turn actions l, rfl, turn_busy nonempty, turn_met met loops, turn_run run parked⟩

/-- Every run that leaves the link parked goes on for ever, fair to all threads, while nothing happens. -/
theorem exists_endless (nonempty : 0 < actions.length) (met : Execution.Meets (system ids) C {} actions)
    (run : (system ids).run {} actions = some l) (parked : l.Parked) (loops : ∀ l a, Loops a → C l a) :
    ∃ e : (system ids).Execution C, FairSides e ∧ ∀ k, ∃ n, k ≤ n ∧ e.state n = l.waited k := by
  let plan := turns nonempty met run parked loops
  have still (k j : Nat) (inside : j < (plan.turn (k + 1)).length) : (plan.stateAt (k + 1) j).Still := by
    have start : (plan.begun (k + 1)).Still := parked.still k
    refine plan.stateAt_keeps start ?_ (Nat.le_of_lt inside)
    exact fun l' a l'' now member step => now.keeps (idleTurn_loops l.muxer.txQueues.keys a member) step
  refine ⟨plan.execution, ⟨?_, fun i => ?_, ?_, ?_, ?_, ?_, ?_⟩, fun k => ?_⟩
  · refine plan.fair_of_taken (fun k => ⟨.muxer (.wake false), ?_, fun l => ⟨_, rfl, trivial⟩⟩)
    simp [plan, turns, turn, idleTurn, PacketMuxer.idleTurn]
  · exact plan.fair_of_never (fun k j inside => (still k j inside).no_user i)
  · exact plan.fair_of_never (fun k j inside => (still k j inside).no_destroyed)
  · refine plan.fair_of_taken (fun k => ⟨.demuxer .receive, ?_, fun l => ⟨_, rfl, rfl⟩⟩)
    simp [plan, turns, turn, idleTurn, PacketDemuxer.idleTurn]
  · exact plan.fair_of_never (fun k j inside => (still k j inside).no_notice)
  · exact plan.fair_of_never (fun k j inside => (still k j inside).no_read)
  · exact plan.fair_of_never (fun k j inside => (still k j inside).no_destroy)
  · obtain ⟨n, later, now⟩ := plan.execution_begun (k + 1)
    exact ⟨n, Nat.le_of_succ_le later, now⟩

end Endless

end Link

end PacketComms
