import PacketComms.Link.Control
import PacketComms.Link.Liveness
import PacketComms.Sync.Acknowledgement

namespace PacketComms.SyncPair

open Link (Reliable)

/-- A step of this kind of the link that `r` sends by. -/
def OnLink (r : Role) (A : Link → LinkAction → Prop) (p : SyncPair) (action : SyncAction) : Prop :=
  ∃ a, action = .link r a ∧ A (p.links r) a

/-- The thread of a side goes on. -/
def OnSide (r : Role) (_ : SyncPair) (action : SyncAction) : Prop := action = .side r

/-- Fairness to the two programs, to the threads of their muxers and demuxers, and to the two streams. -/
structure FairPair {ids : IdManager} {archive : BoolArchive} {readyMsgStr : String} {k : Nat}
    (e : (system ids archive readyMsgStr k).Execution Steady) : Prop where
  sides : ∀ r, e.Fair (OnSide r)
  send : ∀ r, e.Fair (OnLink r (Link.OnMuxer PacketMuxer.SendThread))
  receive : ∀ r, e.Fair (OnLink r (Link.OnDemuxer PacketDemuxer.ReceiveThread))
  notices : ∀ r, e.Fair (OnLink r (Link.OnDemuxer PacketDemuxer.Notices))
  reads : ∀ r, e.Fair (OnLink r (Link.OnDemuxer PacketDemuxer.Reads))

section

variable {names : List String} {ids : IdManager} {archive : BoolArchive} {readyMsgStr : String}
variable {type : PacketType} {k : Nat}

theorem ReadyPost.listed (listed : readyMsgStr ∈ names) (name : String) (args : PacketArgs)
    (ready : ReadyPost archive readyMsgStr name args) : ShortPost names name args :=
  ⟨ready.1 ▸ listed, ReadyPost.short name args ready⟩

theorem reliable_listed (listed : readyMsgStr ∈ names) {l : Link} {action : LinkAction}
    (reliable : Reliable (ReadyPost archive readyMsgStr) l action) : Reliable (ShortPost names) l action := by
  cases action with
  | muxer a =>
    refine ⟨reliable.1, ?_⟩
    cases a with
    | post i name args => exact ReadyPost.listed listed name args reliable.2
    | _ => trivial
  | demuxer a =>
    cases a with
    | read answer => cases answer <;> exact reliable
    | _ => trivial

/-- What neither is a call nor fails may happen on a reliable link. -/
theorem reliable_of_internal {allowed : String → PacketArgs → Prop} (l : Link) {action : LinkAction}
    (internal : action.internal = true) (fine : action.fails = false) : Reliable allowed l action := by
  refine Link.reliable_of_silent l ?_
  cases action with
  | muxer a =>
    cases a with
    | write answer => cases answer <;> first | rfl | cases fine
    | post => cases internal
    | _ => rfl
  | demuxer a =>
    cases a with
    | read answer => cases answer <;> first | rfl | cases fine
    | _ => rfl

theorem fails_of_reliable {allowed : String → PacketArgs → Prop} {l : Link} {action : LinkAction}
    (reliable : Reliable allowed l action) : action.fails = false := by
  cases action with
  | muxer a =>
    cases a with
    | write answer =>
      cases answer with
      | error => exact absurd reliable.1 id
      | count n => rfl
    | _ => rfl
  | demuxer a =>
    cases a with
    | read answer =>
      cases answer with
      | error => exact absurd reliable id
      | count n => rfl
    | _ => rfl

/-- Each step is one of the link, or leaves it alone. -/
theorem link_step (listed : readyMsgStr ∈ names) {p p' : SyncPair} {action : SyncAction} (met : Steady p action)
    (run : step ids archive readyMsgStr k p action = some p') (r : Role) : p'.links r = p.links r ∨
      ∃ a, Reliable (ShortPost names) (p.links r) a ∧ Link.step ids (p.links r) a = some (p'.links r) := by
  rcases step_links met run with same | ⟨r', a, l, moved, reliable, links⟩
  · exact Or.inl (congrFun same r)
  · rw [links]
    by_cases own : r = r'
    · subst own
      rw [Function.update_self]
      exact Or.inr ⟨a, reliable_listed listed reliable, moved⟩
    · exact Or.inl (Function.update_of_ne own _ _)

/-- A link, for itself. -/
def linkSide (listed : readyMsgStr ∈ names) (e : (system ids archive readyMsgStr k).Execution Steady) (r : Role) :
    (Link.system ids).Execution (Reliable (ShortPost names)) :=
  e.component (fun p => p.links r) rfl (fun _ met run => link_step listed met run r)

theorem fair_link {listed : readyMsgStr ∈ names} {e : (system ids archive readyMsgStr k).Execution Steady} {r : Role}
    {A : Link → LinkAction → Prop} (own : ∀ l a, A l a → a.internal = true) (fair : e.Fair (OnLink r A)) :
    (linkSide listed e r).Fair A := by
  refine fair.component (U := Link.system ids) (D := Reliable (ShortPost names)) (fun p => p.links r) rfl
    (fun _ met run => link_step listed met run r) ?_ ?_
  · rintro p - ⟨a, l, met, kind, run⟩
    have moved : Link.step ids (p.links r) a = some l := run
    obtain ⟨p', goes⟩ : ∃ p', step ids archive readyMsgStr k p (.link r a) = some p' := by
      simp [step, own _ _ kind, linkStep, moved]
    exact ⟨.link r a, p', fails_of_reliable met, ⟨a, rfl, kind⟩, goes⟩
  · rintro p a p' - met ⟨b, rfl, kind⟩ run
    have moves : step ids archive readyMsgStr k p (.link r b) = some p' := run
    simp only [step, own _ _ kind, if_true] at moves
    obtain ⟨l, moved, links, -⟩ := linkStep_cases moves
    exact ⟨b, reliable_of_internal _ (own _ _ kind) met, kind, by rw [links, Function.update_self]; exact moved⟩

/-- What the threads of a link and the program of a synchronisation do: nothing is destroyed, and one thread posts. -/
def Ordinary : LinkAction → Prop
  | .muxer (.post i ..) | .muxer (.user i _) => i = 0
  | .muxer .destroy | .muxer .destroyed | .demuxer .destroy => False
  | _ => True

theorem ordinary_of_internal {action : LinkAction} (internal : action.internal = true) : Ordinary action := by
  cases action with
  | muxer a | demuxer a => cases a <;> trivial

theorem step_ordinary {p p' : SyncPair} {action : SyncAction}
    (run : step ids archive readyMsgStr k p action = some p') :
    p'.links = p.links ∨ ∃ r a l, Link.step ids (p.links r) a = some l ∧ Ordinary a ∧
      p'.links = Function.update p.links r l := by
  cases action with
  | link r a =>
    simp only [step, Option.ite_none_right_eq_some] at run
    obtain ⟨internal, run⟩ := run
    obtain ⟨l, moved, links, -⟩ := linkStep_cases run
    exact Or.inr ⟨r, a, l, moved, ordinary_of_internal internal, links⟩
  | side r =>
    cases at_pc : (p.sides r).pc <;> simp only [step, sideStep, at_pc] at run
    case outside =>
      simp only [Option.ite_none_right_eq_some, Option.some.injEq] at run
      obtain ⟨-, rfl⟩ := run
      exact Or.inl rfl
    case subscribing =>
      split at run
      · cases Option.some.inj run
        exact Or.inl rfl
      · obtain ⟨middle, moved, rfl⟩ := Option.map_eq_some_iff.mp run
        obtain ⟨l, moved, links, -⟩ := linkStep_cases moved
        exact Or.inr ⟨_, _, l, moved, trivial, links⟩
    case testing | sleeping =>
      cases Option.some.inj run
      exact Or.inl rfl
    case serialising | leaving =>
      obtain ⟨middle, moved, rfl⟩ := Option.map_eq_some_iff.mp run
      obtain ⟨l, moved, links, -⟩ := linkStep_cases moved
      exact Or.inr ⟨_, _, l, moved, by trivial, links⟩
    case emplacing =>
      split at run
      · cases Option.some.inj run
        exact Or.inl rfl
      · obtain ⟨l, moved, links, -⟩ := linkStep_cases run
        exact Or.inr ⟨_, _, l, moved, rfl, links⟩
    case terminated => cases run

/-- Nothing is being destroyed, and only one thread of the program posts. -/
structure Unharmed (l : Link) : Prop where
  muxer : l.muxer.destructor = .notCalled
  demuxer : l.demuxer.destructor = .notCalled
  users : ∀ i, i ≠ 0 → l.muxer.users i = .idle

theorem Unharmed.keeps {l l' : Link} {action : LinkAction} (unharmed : Unharmed l) (ordinary : Ordinary action)
    (run : Link.step ids l action = some l') : Unharmed l' := by
  obtain ⟨muxer, demuxer, users⟩ := unharmed
  cases action with
  | muxer a =>
    obtain ⟨moved, -, -, destructor⟩ := Link.step_muxer run
    have effect := PacketMuxer.step_effect moved
    have stands : l'.muxer.destructor = .notCalled := by
      rcases effect.destructor_cases with same | ⟨rfl, -⟩ | ⟨rfl, -⟩
      · exact same.trans muxer
      · cases ordinary
      · cases ordinary
    have kept : ∀ i, i ≠ 0 → l'.muxer.users i = .idle := by
      generalize l'.muxer = m at effect
      cases effect with
      | destroyStored => cases ordinary
      | called =>
        obtain rfl := ordinary
        exact fun i other => (Function.update_of_ne other _ _).trans (users i other)
      | user step =>
        obtain rfl := ordinary
        obtain ⟨-, same, -⟩ := step.lock
        exact fun i other => (Function.update_of_ne other _ _).trans ((congrFun same i).trans (users i other))
      | hello _ step | heartBeat _ step =>
        obtain ⟨-, same, -⟩ := step.lock
        exact fun i other => (congrFun same i).trans (users i other)
      | _ => exact users
    exact ⟨stands, destructor.trans demuxer, kept⟩
  | demuxer a =>
    obtain ⟨moved, same⟩ := Link.step_demuxer run
    refine ⟨same ▸ muxer, ?_, same ▸ users⟩
    rcases (PacketDemuxer.step_effect moved).destructor with ⟨rfl, -⟩ | ⟨-, stands⟩
    · cases ordinary
    · exact stands.trans demuxer

theorem reach_unharmed {C : SyncPair → SyncAction → Prop} {p : SyncPair}
    (reach : (system ids archive readyMsgStr k).ReachUnder C p) (r : Role) : Unharmed (p.links r) := by
  revert r
  refine reach.invariant (I := fun p => ∀ r, Unharmed (p.links r)) (fun _ => ⟨rfl, rfl, fun _ _ => rfl⟩) ?_
  intro p action p' _ unharmed _ run r
  rcases step_ordinary run with same | ⟨r', a, l, moved, ordinary, links⟩
  · rw [same]
    exact unharmed r
  · rw [links]
    by_cases own : r = r'
    · subst own
      rw [Function.update_self]
      exact (unharmed r).keeps ordinary moved
    · rw [Function.update_of_ne own]
      exact unharmed r

end

end PacketComms.SyncPair
