import PacketComms.Sync.Turns

namespace PacketComms.SyncPair

open TransitionSystem (Execution)

/-- Both programs have returned from all their calls, and nothing happens on the links. -/
structure Parked (k : Nat) (p : SyncPair) : Prop where
  sides : ∀ r, (p.sides r).pc = .outside ∧ (p.sides r).done = k
  links : ∀ r, (p.links r).Parked

/-- The loops of both links turn once. -/
def idleTurn (p : SyncPair) : List SyncAction :=
  (Link.idleTurn (p.links .server).muxer.txQueues.keys).map (.link .server) ++
  (Link.idleTurn (p.links .client).muxer.txQueues.keys).map (.link .client)

def waited (p : SyncPair) (n : Nat) : SyncPair := { p with links := fun r => (p.links r).waited n }

section

variable {ids : IdManager} {archive : BoolArchive} {readyMsgStr : String} {k : Nat}

/-- What the threads of a link do without a callback. -/
theorem run_link {p : SyncPair} {r : Role} {l : Link} {actions : List LinkAction}
    (internal : ∀ a ∈ actions, a.internal = true) (run : (Link.system ids).run (p.links r) actions = some l)
    (same : l.demuxer.log = (p.links r).demuxer.log) :
    (system ids archive readyMsgStr k).run p (actions.map (.link r)) =
      some { p with links := Function.update p.links r l } := by
  induction actions generalizing p with
  | nil =>
    cases Option.some.inj run
    simp [TransitionSystem.run]
  | cons a actions ih =>
    obtain ⟨middle, moves, rest⟩ := Option.bind_eq_some_iff.mp run
    have moved : Link.step ids (p.links r) a = some middle := moves
    have before := Link.log_grows moved
    have after := Link.run_log_grows rest
    have log : middle.demuxer.log = (p.links r).demuxer.log :=
      (before.eq_of_length_le (after.length_le.trans (same ▸ Nat.le_refl _))).symm
    have first :
        step ids archive readyMsgStr k p (.link r a) = some { p with links := Function.update p.links r middle } := by
      simp [step, internal a List.mem_cons_self, linkStep, moved, log]
    have last := ih (p := { p with links := Function.update p.links r middle })
      (fun b member => internal b (List.mem_cons_of_mem a member)) (by simpa using rest)
      (by simp [same, log])
    simp only [List.map_cons, TransitionSystem.run, system, first, Option.bind_some]
    simpa [system] using last

theorem loops_internal {a : LinkAction} (loops : Link.Loops a) : a.internal = true ∧ a.fails = false := by
  cases a with
  | muxer a => cases a <;> first | exact ⟨rfl, rfl⟩ | cases loops
  | demuxer a =>
    simp only [Link.Loops, PacketDemuxer.idleTurn, List.mem_cons, List.not_mem_nil, or_false] at loops
    rcases loops with rfl | rfl <;> exact ⟨rfl, rfl⟩

theorem Parked.idles {p : SyncPair} (parked : p.Parked k) (n : Nat) :
    (system ids archive readyMsgStr k).run (p.waited n) p.idleTurn = some (p.waited (n + 1)) := by
  have internal (types : List PacketType) : ∀ a ∈ Link.idleTurn types, a.internal = true :=
    fun a member => (loops_internal (Link.idleTurn_loops types a member)).1
  have server : (system ids archive readyMsgStr k).run (p.waited n) ((Link.idleTurn _).map (.link .server)) = some _ :=
    run_link (internal _) ((parked.links .server).idles n) rfl
  refine TransitionSystem.run_trans server ?_
  have client : (system ids archive readyMsgStr k).run
      { p.waited n with links := Function.update (p.waited n).links .server ((p.links .server).waited (n + 1)) }
      ((Link.idleTurn _).map (.link .client)) = some _ :=
    run_link (internal _) (by simpa [waited] using (parked.links .client).idles n) (by simp [waited]; rfl)
  rw [client]
  simp only [waited, Option.some.injEq, SyncPair.mk.injEq, true_and]
  funext r
  cases r <;> simp

/-- No thread but the loops of the links has anything to do. -/
structure Still (k : Nat) (p : SyncPair) : Prop where
  sides : ∀ r, ((p.sides r).pc = .outside ∨ (p.sides r).pc = .terminated) ∧ (p.sides r).done = k
  links : ∀ r, (p.links r).Still

theorem Parked.still {p : SyncPair} (parked : p.Parked k) (n : Nat) : (p.waited n).Still k :=
  ⟨fun r => ⟨Or.inl (parked.sides r).1, (parked.sides r).2⟩, fun r => (parked.links r).still n⟩

theorem Still.keeps {p p' : SyncPair} {r : Role} {a : LinkAction} (still : p.Still k) (loops : Link.Loops a)
    (run : step ids archive readyMsgStr k p (.link r a) = some p') : p'.Still k := by
  simp only [step, Option.ite_none_right_eq_some] at run
  obtain ⟨-, run⟩ := run
  refine ⟨fun r' => ?_, fun r' => ?_⟩
  · obtain ⟨done, pc, -⟩ := linkStep_called run r'
    obtain ⟨place, same⟩ := still.sides r'
    exact ⟨pc.elim (fun kept => kept ▸ place) Or.inr, done.trans same⟩
  · obtain ⟨l, moved, links, -⟩ := linkStep_cases run
    rw [links]
    by_cases own : r' = r
    · subst own
      rw [Function.update_self]
      exact (still.links r').keeps loops moved
    · rw [Function.update_of_ne own]
      exact still.links r'

variable {C : SyncPair → SyncAction → Prop} {p : SyncPair}

theorem Still.no_side (still : p.Still k) (r : Role) : ¬ (system ids archive readyMsgStr k).Enabled C (OnSide r) p := by
  rintro ⟨-, p', -, rfl, run⟩
  have moved : p.sideStep ids archive readyMsgStr k r = some p' := run
  obtain ⟨place, same⟩ := still.sides r
  rcases place with at_pc | at_pc <;> simp [sideStep, at_pc, same] at moved

/-- What the links cannot do, they cannot do here. -/
theorem no_link {A : Link → LinkAction → Prop} {r : Role}
    (none : ¬ (Link.system ids).Enabled (fun _ _ => True) A (p.links r)) :
    ¬ (system ids archive readyMsgStr k).Enabled C (OnLink r A) p := by
  rintro ⟨-, p', -, ⟨a, rfl, kind⟩, run⟩
  have moves : step ids archive readyMsgStr k p (.link r a) = some p' := run
  simp only [step, Option.ite_none_right_eq_some] at moves
  obtain ⟨l, moved, -⟩ := linkStep_cases moves.2
  exact none ⟨a, l, trivial, kind, moved⟩

section Endless

variable {actions : List SyncAction}

def begun (p : SyncPair) : Nat → SyncPair
  | 0 => {}
  | n + 1 => p.waited n

def turn (actions : List SyncAction) (p : SyncPair) : Nat → List SyncAction
  | 0 => actions
  | _ + 1 => p.idleTurn

theorem mem_idleTurn {action : SyncAction} (member : action ∈ p.idleTurn) :
    ∃ r a, action = .link r a ∧ Link.Loops a := by
  simp only [idleTurn, List.mem_append, List.mem_map] at member
  rcases member with ⟨a, member, rfl⟩ | ⟨a, member, rfl⟩ <;> exact ⟨_, a, rfl, Link.idleTurn_loops _ a member⟩

theorem turn_busy (nonempty : 0 < actions.length) (n : Nat) : 0 < (turn actions p n).length := by
  cases n with
  | zero => exact nonempty
  | succ n => simp [turn, idleTurn, Link.idleTurn, PacketMuxer.idleTurn]

theorem turn_met (met : Execution.Meets (system ids archive readyMsgStr k) Steady {} actions) (n : Nat) :
    Execution.Meets (system ids archive readyMsgStr k) Steady (p.begun n) (turn actions p n) := by
  cases n with
  | zero => exact met
  | succ n =>
    refine .of_forall (fun action member q => ?_) _
    obtain ⟨r, a, rfl, loops⟩ := mem_idleTurn member
    exact (loops_internal loops).2

theorem turn_run (run : (system ids archive readyMsgStr k).run {} actions = some p) (parked : p.Parked k) (n : Nat) :
    (system ids archive readyMsgStr k).run (p.begun n) (turn actions p n) = some (p.begun (n + 1)) := by
  cases n with
  | zero => simpa [begun, turn, waited, Link.waited, PacketDemuxer.waited] using run
  | succ n => exact parked.idles n

def turns (nonempty : 0 < actions.length) (met : Execution.Meets (system ids archive readyMsgStr k) Steady {} actions)
    (run : (system ids archive readyMsgStr k).run {} actions = some p) (parked : p.Parked k) :
    Execution.Turns (system ids archive readyMsgStr k) Steady :=
  ⟨p.begun, turn actions p, rfl, turn_busy nonempty, turn_met met, turn_run run parked⟩

/-- Every run that leaves everything parked goes on for ever, fair to all threads, while nothing happens. -/
theorem exists_endless (nonempty : 0 < actions.length)
    (met : Execution.Meets (system ids archive readyMsgStr k) Steady {} actions)
    (run : (system ids archive readyMsgStr k).run {} actions = some p) (parked : p.Parked k) :
    ∃ e : (system ids archive readyMsgStr k).Execution Steady, FairPair e ∧ ∃ n, e.state n = p := by
  let plan := turns nonempty met run parked
  have still (n j : Nat) (inside : j < (plan.turn (n + 1)).length) : (plan.stateAt (n + 1) j).Still k := by
    have start : (plan.begun (n + 1)).Still k := parked.still n
    refine plan.stateAt_keeps start ?_ (Nat.le_of_lt inside)
    intro q action q' now member step
    obtain ⟨r, a, rfl, loops⟩ := mem_idleTurn member
    have moved : SyncPair.step ids archive readyMsgStr k q (.link r a) = some q' := step
    exact now.keeps loops moved
  refine ⟨plan.execution, ⟨fun r => ?_, fun r => ?_, fun r => ?_, fun r => ?_, fun r => ?_⟩, ?_⟩
  · exact plan.fair_of_never (fun n j inside => (still n j inside).no_side r)
  · refine plan.fair_of_taken (fun n => ⟨.link r (.muxer (.wake false)), ?_, fun q => ⟨_, rfl, _, rfl, trivial⟩⟩)
    cases r <;> simp [plan, turns, turn, idleTurn, Link.idleTurn, PacketMuxer.idleTurn]
  · refine plan.fair_of_taken (fun n => ⟨.link r (.demuxer .receive), ?_, fun q => ⟨_, rfl, _, rfl, rfl⟩⟩)
    cases r <;> simp [plan, turns, turn, idleTurn, Link.idleTurn, PacketDemuxer.idleTurn]
  · exact plan.fair_of_never (fun n j inside => no_link ((still n j inside).links r).no_notice)
  · exact plan.fair_of_never (fun n j inside => no_link ((still n j inside).links r).no_read)
  · obtain ⟨n, -, now⟩ := plan.execution_begun 1
    have first : p.waited 0 = p := by simp [waited, Link.waited, PacketDemuxer.waited]
    exact ⟨n, now.trans first⟩

end Endless

end

end PacketComms.SyncPair
