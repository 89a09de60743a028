import PacketComms.Demuxer.Departure
import PacketComms.Link.Alarms
import PacketComms.Muxer.Departure

namespace PacketComms.Link

/-- A step of this kind by the muxer. -/
def OnMuxer (A : PacketMuxer → MuxerAction → Prop) (l : Link) (action : LinkAction) : Prop :=
  ∃ a, action = .muxer a ∧ A l.muxer a

/-- A step of this kind by the demuxer. -/
def OnDemuxer (A : PacketDemuxer → DemuxerAction → Prop) (l : Link) (action : LinkAction) : Prop :=
  ∃ a, action = .demuxer a ∧ A l.demuxer a

/-- Fairness to the threads of both sides and to the stream between them. -/
structure FairSides {ids : IdManager} {C : Link → LinkAction → Prop} (e : (system ids).Execution C) : Prop where
  send : e.Fair (OnMuxer PacketMuxer.SendThread)
  users : ∀ i, e.Fair (OnMuxer (PacketMuxer.UserThread i))
  destroyMuxer : e.Fair (OnMuxer PacketMuxer.DestructorThread)
  receive : e.Fair (OnDemuxer PacketDemuxer.ReceiveThread)
  notices : e.Fair (OnDemuxer PacketDemuxer.Notices)
  reads : e.Fair (OnDemuxer PacketDemuxer.Reads)
  destroyDemuxer : e.Fair (OnDemuxer PacketDemuxer.DestructorThread)

section Sides

variable {names : List String} {ids : IdManager} {allowed : String → PacketArgs → Prop}

/-- What the program of a reliable link may do on the side of the muxer. -/
def MuxerSide (allowed : String → PacketArgs → Prop) (m : PacketMuxer) (action : MuxerAction) : Prop :=
  PacketMuxer.NoWriteError m action ∧ PacketMuxer.Posts allowed m action

theorem muxer_step {l l' : Link} {action : LinkAction} (met : Reliable allowed l action)
    (run : step ids l action = some l') : l'.muxer = l.muxer ∨
      ∃ a, MuxerSide allowed l.muxer a ∧ PacketMuxer.step ids l.muxer a = some l'.muxer := by
  rcases step_cases run with ⟨a, rfl, moved, -⟩ | ⟨a, rfl, -, -, same⟩
  · exact Or.inr ⟨a, met, moved⟩
  · exact Or.inl same

/-- The muxer of a link, for itself. -/
def muxerSide (e : (system ids).Execution (Reliable allowed)) :
    (PacketMuxer.system ids).Execution (MuxerSide allowed) :=
  e.component Link.muxer rfl (fun _ met run => muxer_step met run)

theorem fair_muxer {e : (system ids).Execution (Reliable allowed)} {A : PacketMuxer → MuxerAction → Prop}
    (fair : e.Fair (OnMuxer A)) : (muxerSide e).Fair A := by
  refine fair.component Link.muxer rfl (fun _ met run => muxer_step met run) ?_ ?_
  · rintro l - ⟨a, m, met, kind, run⟩
    exact ⟨.muxer a, _, met, ⟨a, rfl, kind⟩, by
      simp [system, step, show PacketMuxer.step ids l.muxer a = some m from run]
      rfl⟩
  · rintro l a l' - met ⟨b, rfl, kind⟩ run
    have moves : step ids l (.muxer b) = some l' := run
    rcases step_cases moves with ⟨a, same, moved, -⟩ | ⟨a, same, -⟩
    · cases same
      exact ⟨b, met, kind, moved⟩
    · cases same

/-- The demuxer of a link, for itself. -/
def demuxerSide (built : IdManager.ofList names = some ids) (few : names.length ≤ 2 ^ 32 - 2)
    (e : (system ids).Execution (Reliable (ShortPost names))) : (PacketDemuxer.system ids).Execution FromMuxer :=
  e.component Link.demuxer rfl (fun reach met run => demuxer_step built few reach met run)

theorem fair_demuxer {built : IdManager.ofList names = some ids} {few : names.length ≤ 2 ^ 32 - 2}
    {e : (system ids).Execution (Reliable (ShortPost names))} {A : PacketDemuxer → DemuxerAction → Prop}
    (own : ∀ d a, A d a → ∀ bytes, a ≠ .arrive bytes) (fair : e.Fair (OnDemuxer A)) :
    (demuxerSide built few e).Fair A := by
  refine fair.component Link.demuxer rfl (fun reach met run => demuxer_step built few reach met run) ?_ ?_
  · rintro l - ⟨a, d, met, kind, run⟩
    have other := own _ _ kind
    have moved : PacketDemuxer.step ids l.demuxer a = some d := run
    refine ⟨.demuxer a, { l with demuxer := d }, ?_, ⟨a, rfl, kind⟩, ?_⟩
    · cases a with
      | read answer =>
        cases answer with
        | error => exact met.2 rfl
        | count n => trivial
      | _ => trivial
    · cases a with
      | arrive bytes => exact absurd rfl (other bytes)
      | _ => simp [system, step, moved]
  · rintro l a l' - met ⟨b, rfl, kind⟩ run
    have other := own _ _ kind
    have moves : step ids l (.demuxer b) = some l' := run
    rcases step_cases moves with ⟨a, same, -⟩ | ⟨a, same, -, moved, -⟩
    · cases same
    · cases same
      refine ⟨b, ⟨?_, ?_⟩, kind, moved⟩
      · cases b with
        | arrive bytes => exact absurd rfl (other bytes)
        | _ => trivial
      · rintro rfl
        exact met

theorem proper_muxer (built : IdManager.ofList names = some ids) (few : names.length ≤ 2 ^ 32 - 2) :
    PacketMuxer.Proper ids (ShortPost names) (MuxerSide (ShortPost names)) := by
  refine ⟨postsSendable built few, fun _ _ => And.right, ?_, fun _ => ⟨.count 1, by simp, trivial, trivial⟩⟩
  intro m action internal
  cases action with
  | post | write => cases internal
  | _ => exact ⟨trivial, trivial⟩

theorem live_demuxer : PacketDemuxer.Live FromMuxer := by
  refine ⟨fun _ => ?_, fun _ => ?_, fun _ => ?_, fun _ => ?_, fun _ _ => ?_⟩ <;>
    exact ⟨trivial, by simp [PacketDemuxer.NoReadError]⟩

theorem FairSides.muxer {e : (system ids).Execution (Reliable allowed)} (fair : FairSides e) :
    PacketMuxer.FairThreads (muxerSide e) :=
  ⟨fair_muxer fair.send, fun i => fair_muxer (fair.users i), fair_muxer fair.destroyMuxer⟩

theorem FairSides.demuxer (built : IdManager.ofList names = some ids) (few : names.length ≤ 2 ^ 32 - 2)
    {e : (system ids).Execution (Reliable (ShortPost names))} (fair : FairSides e) :
    PacketDemuxer.FairThreads (demuxerSide built few e) := by
  refine ⟨fair_demuxer ?_ fair.receive, fair_demuxer ?_ fair.notices, fair_demuxer ?_ fair.reads,
    fair_demuxer ?_ fair.destroyDemuxer⟩
  · rintro d a own bytes rfl
    cases own
  · rintro d a ⟨-, rfl⟩ bytes
    simp
  · rintro d a ⟨n, -, rfl⟩ bytes
    simp
  · rintro d a ⟨-, rfl⟩ bytes
    simp

end Sides

end PacketComms.Link
