import PacketComms.Lib.Liveness
import PacketComms.Demuxer.HangUp
import PacketComms.Demuxer.Shutdown
import Mathlib.Data.Prod.Lex

namespace PacketComms

namespace PacketDemuxer

/-- The receive thread takes a step, whatever the transport answers. -/
def ReceiveThread (_ : PacketDemuxer) (action : DemuxerAction) : Prop := action.receiving = true

/-- There are bytes, and `readyForReading` says so. -/
def Notices (d : PacketDemuxer) (action : DemuxerAction) : Prop := d.input ≠ [] ∧ action = .ready true

/-- A `read` takes some of the bytes. -/
def Reads (_ : PacketDemuxer) (action : DemuxerAction) : Prop := ∃ n, 0 < n ∧ action = .read (.count n)

/-- The thread that destroys the demuxer goes on. -/
def DestructorThread (d : PacketDemuxer) (action : DemuxerAction) : Prop :=
  d.destructor ≠ .notCalled ∧ action = .destroy

/-- The threads are never held up, and a read may give nothing or some of the bytes that are there. -/
structure Live (C : PacketDemuxer → DemuxerAction → Prop) : Prop where
  receive : ∀ d, C d .receive
  ready : ∀ d, C d (.ready true)
  read : ∀ d, C d (.read (.count 1))
  nothing : ∀ d, C d (.read (.count 0))
  destroy : ∀ d, d.destructor ≠ .notCalled → C d .destroy

/-- A fair scheduler, over a transport that gives the bytes it has sooner or later. -/
structure FairThreads {ids : IdManager} {C : PacketDemuxer → DemuxerAction → Prop} (e : (system ids).Execution C) :
    Prop where
  receive : e.Fair ReceiveThread
  notices : e.Fair Notices
  reads : e.Fair Reads
  destructor : e.Fair DestructorThread

/-- What the peer sends has sound headers, and it does not begin with a control packet without a message. -/
def SoundPeer (d : PacketDemuxer) : DemuxerAction → Prop
  | .arrive bytes => SoundHeaders (d.arrived ++ bytes) ∧ ¬ BeginsWith (d.arrived ++ bytes) ⟨IdManager.controlPacket, []⟩
  | _ => True

end PacketDemuxer

def Field.stage : Field → Nat
  | .type => 4
  | .size _ => 3
  | .payload _ => 2

theorem Field.stage_ne (field : Field) : field.stage ≠ 5 := by
  cases field <;> simp [Field.stage]

/-- How far the receive thread is from having dealt with the next packet: the field it reads, the bytes of it that are
missing, and the turns of the loop in `readBytes`. -/
def ReceivePc.stage : ReceivePc → Nat ×ₗ Nat ×ₗ Nat
  | .loop | .ready _ => toLex (5, toLex (0, 0))
  | .test _ field _ size => toLex (field.stage, toLex (size, if size = 0 then 1 else 2))
  | .read _ field _ size => toLex (field.stage, toLex (size, 2))
  | .check _ field _ size => toLex (field.stage, toLex (size, 0))
  | .greet _ | .dispatch _ => toLex (1, toLex (0, 0))
  | .exited | .aborted => toLex (0, toLex (0, 0))

namespace PacketDemuxer

/-- Whose step brings the receive thread nearer. -/
inductive Helper
  | thread
  | notices
  | reads

def Helper.Steps : Helper → PacketDemuxer → DemuxerAction → Prop
  | .thread => ReceiveThread
  | .notices => Notices
  | .reads => Reads

/-- The packets that are still to be dealt with come first. -/
def distance (packets : List ComPacket) (d : PacketDemuxer) : Nat ×ₗ Nat ×ₗ Nat ×ₗ Nat :=
  toLex (packets.length - (dealtWith d.log).length, d.receive.stage)

def helper (rank : Nat ×ₗ Nat ×ₗ Nat ×ₗ Nat) : Helper :=
  let stage := (ofLex (ofLex rank).2)
  if stage.1 = 5 then .notices else if (ofLex stage.2).2 = 2 then .reads else .thread

@[simp] theorem helper_toLex (undealt field size turns : Nat) :
    helper (toLex (undealt, toLex (field, toLex (size, turns)))) =
      if field = 5 then .notices else if turns = 2 then .reads else .thread := rfl

/-- What is true of the thread whatever it reads. -/
structure ThreadInv (d : PacketDemuxer) : Prop where
  exited : d.receive = .exited → d.transportError = true
  missing : ∀ caller field buffer size, d.receive = .read caller field buffer size → 0 < size

theorem Effect.threadInv {ids : IdManager} {d d' : PacketDemuxer} {action : DemuxerAction} (inv : ThreadInv d)
    (effect : Effect ids d action d') : ThreadInv d' := by
  cases effect with
  | unknown => exact inv
  | arrived | subscribed | constructed | moveConstructed | moveAssigned | destructedNull | warned | joined =>
    exact ⟨inv.exited, inv.missing⟩
  | destroys => exact ⟨fun _ => rfl, inv.missing⟩
  | destructed _ same =>
    subst same
    split
    · exact ⟨by simpa using inv.exited, by simpa using inv.missing⟩
    · exact ⟨inv.exited, inv.missing⟩
  | reads at_pc more =>
    refine ⟨by simp, fun caller field buffer size now => ?_⟩
    cases now
    exact more
  | exits _ flag => exact ⟨fun _ => flag, by simp⟩
  | @received caller => cases caller <;> exact ⟨by simp, by simp⟩
  | readied | timedOut | leaves | failed | got | refused | typed | threw | sized | asserted | greeted | rejected
  | crashed | continues | handled | dispatched => exact ⟨by simp, by simp⟩

theorem reach_threadInv {ids : IdManager} {C : PacketDemuxer → DemuxerAction → Prop} {d : PacketDemuxer}
    (reach : (system ids).ReachUnder C d) : ThreadInv d := by
  refine reach.invariant ⟨by simp [system], by simp [system]⟩ ?_
  exact fun _ inv _ run => (step_effect run).threadInv inv

/-- The others leave the thread where it is. -/
theorem Effect.stands {ids : IdManager} {d d' : PacketDemuxer} {action : DemuxerAction}
    (effect : Effect ids d action d')
    (other : ¬ ReceiveThread d action) : d'.receive = d.receive ∧ dealtWith d'.log = dealtWith d.log := by
  cases effect with
  | subscribed => exact ⟨rfl, dealtWith_subscribed ..⟩
  | destructed _ same =>
    subst same
    split
    · exact ⟨by simp, by simp⟩
    · exact ⟨rfl, dealtWith_destructed ..⟩
  | unknown | arrived | constructed | moveConstructed | moveAssigned | destructedNull | destroys | warned | joined =>
    exact ⟨rfl, rfl⟩
  | _ => exact absurd rfl other

/-- Until the error is noted no step takes the thread further away, and one of its helper's brings it nearer. -/
theorem Effect.nears {ids : IdManager} {packets : List ComPacket} {d d' : PacketDemuxer} {action : DemuxerAction}
    (undealt : (dealtWith d.log).length < packets.length) (flag : d.transportError = false)
    (effect : Effect ids d action d') (own : ReceiveThread d action) : d'.transportError = true ∨
      d'.distance packets ≤ d.distance packets ∧
      ((helper (d.distance packets)).Steps d action → d'.distance packets < d.distance packets) := by
  have less {a b : Nat ×ₗ Nat ×ₗ Nat ×ₗ Nat} {P : Prop} (nearer : a < b) : a ≤ b ∧ (P → a < b) :=
    ⟨nearer.le, fun _ => nearer⟩
  cases effect with
  | unknown | arrived | subscribed | constructed | moveConstructed | moveAssigned | destructedNull | destructed
  | destroys | warned | joined => cases own
  | failed | rejected => exact Or.inl rfl
  | refused _ noted | exits _ noted => exact Or.inl noted
  | readied at_pc =>
    exact Or.inr (less (by simp [distance, at_pc, ReceivePc.stage, Field.stage, Prod.Lex.toLex_lt_toLex]))
  | timedOut at_pc | continues at_pc =>
    refine Or.inr ⟨by simp [distance, at_pc, ReceivePc.stage], fun helps => ?_⟩
    simp [distance, at_pc, ReceivePc.stage, Helper.Steps, Notices] at helps
  | @reads caller field buffer size at_pc more =>
    have none : size ≠ 0 := by omega
    refine Or.inr ⟨by simp [distance, at_pc, ReceivePc.stage, none], fun helps => ?_⟩
    simp [distance, at_pc, ReceivePc.stage, none, field.stage_ne, Helper.Steps, Reads] at helps
  | @leaves caller field buffer size at_pc done =>
    obtain rfl : size = 0 := done.resolve_right (by simp [flag])
    exact Or.inr (less (by simp [distance, at_pc, ReceivePc.stage, Prod.Lex.toLex_lt_toLex]))
  | @got caller field buffer size n at_pc asked there =>
    rcases Nat.eq_zero_or_pos n with rfl | some
    · refine Or.inr ⟨?_, fun helps => ?_⟩
      · simp only [distance, at_pc, ReceivePc.stage, Nat.sub_zero, Prod.Lex.toLex_le_toLex, true_and, lt_self_iff_false,
          false_or]
        split <;> omega
      · simp [distance, at_pc, ReceivePc.stage, field.stage_ne, Helper.Steps, Reads] at helps
    · refine Or.inr (less ?_)
      simp [distance, at_pc, ReceivePc.stage, Prod.Lex.toLex_lt_toLex]
      omega
  | typed at_pc | sized at_pc | threw at_pc | asserted at_pc =>
    exact Or.inr (less (by simp [distance, at_pc, ReceivePc.stage, Field.stage, Prod.Lex.toLex_lt_toLex]))
  | @received caller _ _ _ at_pc =>
    refine Or.inr (less ?_)
    cases caller <;> simp [distance, at_pc, ReceivePc.stage, Field.stage, Prod.Lex.toLex_lt_toLex]
  | crashed at_pc =>
    exact Or.inr (less (by simp [distance, at_pc, ReceivePc.stage, Prod.Lex.toLex_lt_toLex]))
  | greeted at_pc | handled at_pc | dispatched at_pc =>
    refine Or.inr (less ?_)
    simp [distance, at_pc, ReceivePc.stage, Prod.Lex.toLex_lt_toLex]
    omega

end PacketDemuxer

end PacketComms
