import PacketComms.Muxer.Sendable
import PacketComms.Muxer.StopFlag
import Mathlib.Algebra.Group.Int.Defs

namespace PacketComms

/-- `MuxerTestSocket::State`. -/
inductive TestState
  | type
  | size
  | payload
  deriving DecidableEq

/-- `MuxerTestSocket`, the socket of the test of the muxer, which takes every write to be a field of a packet. Its
constructor leaves `type` as it is. `failed`: a check has failed. -/
structure MuxerTestSocket where
  testPayloadSize : Int32
  totalBytes : Int32 := 0
  expected : TestState := .type
  type : PacketType
  failed : Bool := false

/-- The `int` that a `write` returns. -/
def IoResult.ofInt (n : Int32) : IoResult := if n.toInt < 0 then .error else .count n.toInt.toNat

namespace MuxerTestSocket

/-- A check. The test goes on after one that fails. -/
def check (s : MuxerTestSocket) (passed : Bool) : MuxerTestSocket := { s with failed := s.failed || !passed }

/-- An `int` against an unsigned number of `width` bits. -/
def payloadSizeIs (s : MuxerTestSocket) (width : Nat) (size : Nat) : Bool :=
  decide (s.testPayloadSize.toInt % 2 ^ width = size)

def checkType (s : MuxerTestSocket) (data : List Byte) : MuxerTestSocket :=
  { s.check (decide (data.length = 4)) with type := ntohl (data.take 4) }

def checkSize (s : MuxerTestSocket) (data : List Byte) : MuxerTestSocket :=
  let checked := s.check (decide (data.length = 4))
  if s.type > 1 then checked.check (s.payloadSizeIs 32 (ntohl (data.take 4)).toNat) else checked

def checkPayload (s : MuxerTestSocket) (data : List Byte) : MuxerTestSocket :=
  if s.type > 1 then s.check (s.payloadSizeIs 64 data.length) else s

/-- What the socket makes of a write. -/
def seen (s : MuxerTestSocket) (data : List Byte) : MuxerTestSocket :=
  match s.expected with
  | .type => { s.checkType data with expected := .size }
  | .size => { s.checkSize data with expected := .payload }
  | .payload => { s.checkPayload data with expected := .type }

/-- The socket pretends to have sent it all. -/
def write (s : MuxerTestSocket) (data : List Byte) : MuxerTestSocket × IoResult :=
  let next := s.seen data
  ({ next with totalBytes := next.totalBytes + Int32.ofNat data.length }, .ofInt (Int32.ofNat data.length))

/-- A packet that the test expects: a payload of the size it was told, unless it is a control packet. -/
structure Expects (s : MuxerTestSocket) (p : ComPacket) : Prop where
  nonempty : 0 < p.data.length
  small : p.data.length < 2 ^ 31
  sized : p.type > 1 → (p.data.length : Int) = s.testPayloadSize.toInt

/-- The fields of a packet that the socket has still to see. -/
inductive Left (p : ComPacket) : TestState → PacketType → List (List Byte) → Prop
  | all {type} : Left p .type type p.fields
  | behindType : Left p .size p.type [htonl p.sizeField, p.data]
  | behindSize : Left p .payload p.type [p.data]
  | nothing {type} : Left p .type type []

section Write

variable {s : MuxerTestSocket} {p : ComPacket} {buffer : List Byte} {fields : List (List Byte)}

theorem Left.whole (left : Left p s.expected s.type (buffer :: fields)) (expects : s.Expects p) :
    buffer ≠ [] ∧ buffer.length < 2 ^ 31 := by
  generalize s.expected = state at left
  generalize s.type = type at left
  have positive := expects.nonempty
  have small := expects.small
  cases left with
  | all | behindType => exact ⟨by simp [htonl], by simp [htonl_length]⟩
  | behindSize => exact ⟨List.ne_nil_of_length_pos positive, small⟩

/-- The next field is the one the socket expects, and no check fails. -/
theorem Left.seen (left : Left p s.expected s.type (buffer :: fields)) (expects : s.Expects p) :
    Left p (s.seen buffer).expected (s.seen buffer).type fields ∧ (s.seen buffer).failed = s.failed ∧
      (s.seen buffer).testPayloadSize = s.testPayloadSize ∧ (s.seen buffer).totalBytes = s.totalBytes := by
  have sized := expects.sized
  have small := expects.small
  unfold MuxerTestSocket.seen
  generalize at_state : s.expected = state at left
  generalize at_type : s.type = type at left
  cases left with
  | all =>
    refine ⟨?_, by simp [checkType, check, htonl_length], rfl, rfl⟩
    have header : ntohl ((htonl p.type).take 4) = p.type := ntohl_htonl p.type
    simp only [checkType, header]
    exact .behindType
  | behindType =>
    have header : ntohl ((htonl p.sizeField).take 4) = p.sizeField := ntohl_htonl p.sizeField
    have value : p.sizeField.toNat = p.data.length := ComPacket.sizeField_toNat (by omega)
    have passed : s.type > 1 → s.payloadSizeIs 32 p.sizeField.toNat = true := by
      intro user
      have same := sized (at_type ▸ user)
      simp only [payloadSizeIs, value, ← same, decide_eq_true_eq]
      omega
    by_cases user : s.type > 1
    · simp only [checkSize, user, if_true, header, passed user]
      exact ⟨at_type ▸ .behindSize, by simp [check, htonl_length], rfl, rfl⟩
    · simp only [checkSize, user, if_false]
      exact ⟨at_type ▸ .behindSize, by simp [check, htonl_length], rfl, rfl⟩
  | behindSize =>
    have passed : s.type > 1 → s.payloadSizeIs 64 p.data.length = true := by
      intro user
      have same := sized (at_type ▸ user)
      simp only [payloadSizeIs, ← same, decide_eq_true_eq]
      omega
    by_cases user : s.type > 1
    · simp only [checkPayload, user, if_true, passed user]
      exact ⟨.nothing, by simp [check], rfl, rfl⟩
    · simp only [checkPayload, user, if_false, and_true]
      exact .nothing

end Write

end MuxerTestSocket

/-- A muxer that writes to the test socket. -/
structure TestedMuxer where
  muxer : PacketMuxer := {}
  socket : MuxerTestSocket

namespace TestedMuxer

/-- The send thread's writes are the ones that the socket sees, and the socket gives the answers. -/
def step (ids : IdManager) (t : TestedMuxer) (action : MuxerAction) : Option TestedMuxer :=
  match action, t.muxer.send with
  | .write answer, .write _ _ (buffer :: _) _ =>
    if answer = (t.socket.write buffer).2 then
      (PacketMuxer.step ids t.muxer action).map (fun m => ⟨m, (t.socket.write buffer).1⟩)
    else none
  | _, _ => (PacketMuxer.step ids t.muxer action).map (fun m => ⟨m, t.socket⟩)

/-- `type` is what the memory held before. -/
def system (ids : IdManager) (testPayloadSize : Int32) (type : PacketType) :
    TransitionSystem TestedMuxer MuxerAction where
  start := { socket := { testPayloadSize := testPayloadSize, type := type } }
  step := step ids

/-- Every payload of the program has the size that the socket was told. -/
def PayloadOf (size : Int32) (_ : String) (args : PacketArgs) : Prop :=
  ∀ type packet, ComPacket.make type args = some packet → (packet.data.length : Int) = size.toInt

/-- Where the send thread is in its packet, the socket is. -/
def InStep (send : SendPc) (socket : MuxerTestSocket) : Prop :=
  match send with
  | .write _ _ fields ok => ok = true ∧ ∃ p rest, socket.Expects p ∧
      MuxerTestSocket.Left p socket.expected socket.type rest ∧ (fields = rest ∨ fields = [] :: rest)
  | _ => socket.expected = .type

section Steps

variable {ids : IdManager} {size : Int32} {m m' : PacketMuxer} {s : MuxerTestSocket} {action : MuxerAction}

/-- What the send thread does between two writes. -/
theorem InStep.kept (inStep : InStep m.send s) (effect : PacketMuxer.Effect ids m action m')
    (queued : ∀ type, ∀ packet ∈ m.txQueues.get type, s.Expects packet.packet)
    (quiet : ∀ answer type types buffer fields ok, action = .write answer →
      m.send ≠ .write type types (buffer :: fields) ok) :
    InStep m'.send s ∧ m'.wire = m.wire := by
  cases effect with
  | threw | called | destroy | destroyLocked | destroyUnlocked | destroyJoined => exact ⟨inStep, rfl⟩
  | user step =>
    exact ⟨(step.send.congr (fun send => InStep send s) (fun _ => rfl)) ▸ inStep, step.sending_side.2.2.2.2.1⟩
  | hello at_pc step | heartBeat at_pc step =>
    rw [at_pc] at inStep
    exact ⟨inStep, step.sending_side.2.2.2.2.1⟩
  | destroyStored => exact ⟨(m.stored_send.congr (fun send => InStep send s) (fun _ => rfl)) ▸ inStep, by simp⟩
  | @handed type types packet packets at_pc _ queue =>
    rw [at_pc] at inStep
    have expected : s.expected = .type := inStep
    have member : packet ∈ m.txQueues.get type := by
      rw [queue]
      exact List.mem_cons_self
    exact ⟨⟨rfl, packet.packet, packet.packet.fields, queued type packet member, expected ▸ .all, Or.inl rfl⟩, rfl⟩
  | @skipped type types fields ok at_pc =>
    rw [at_pc] at inStep
    obtain ⟨flag, p, rest, expects, left, same | same⟩ := inStep
    · subst same
      exact absurd rfl (left.whole expects).1
    · obtain ⟨-, rfl⟩ := List.cons.inj same
      exact ⟨⟨flag, p, fields, expects, left, Or.inl rfl⟩, rfl⟩
  | finished at_pc =>
    rw [at_pc] at inStep
    obtain ⟨flag, p, rest, expects, left, same | same⟩ := inStep
    · subst same
      refine ⟨?_, rfl⟩
      generalize at_state : s.expected = state at left
      generalize s.type = type at left
      cases left with
      | nothing => exact at_state
    · cases same
  | failed at_pc | accepted at_pc | interrupted at_pc => exact absurd at_pc (quiet _ _ _ _ _ _ rfl)
  | entered at_pc | greeted at_pc | locked at_pc | continues at_pc | stops at_pc | waits at_pc | busy at_pc
  | woken at_pc | relocked at_pc | timedOut at_pc | beaten at_pc | iterates at_pc | passed at_pc | visits at_pc
  | drained at_pc | asserted at_pc | assigned at_pc | popped at_pc | unlocked at_pc =>
    rw [at_pc] at inStep
    exact ⟨inStep, rfl⟩

theorem step_cases {t t' : TestedMuxer} (run : step ids t action = some t') :
    PacketMuxer.step ids t.muxer action = some t'.muxer ∧
    ((∃ type types buffer fields ok, action = .write (t.socket.write buffer).2 ∧
        t.muxer.send = .write type types (buffer :: fields) ok ∧ t'.socket = (t.socket.write buffer).1) ∨
      t'.socket = t.socket ∧ ∀ answer type types buffer fields ok, action = .write answer →
        t.muxer.send ≠ .write type types (buffer :: fields) ok) := by
  unfold step at run
  split at run
  · rename_i answer type types buffer fields ok at_pc
    simp only [Option.ite_none_right_eq_some] at run
    obtain ⟨rfl, run⟩ := run
    obtain ⟨m, moved, rfl⟩ := Option.map_eq_some_iff.mp run
    exact ⟨moved, Or.inl ⟨type, types, buffer, fields, ok, rfl, at_pc, rfl⟩⟩
  · rename_i elsewhere
    obtain ⟨m, moved, rfl⟩ := Option.map_eq_some_iff.mp run
    refine ⟨moved, Or.inr ⟨rfl, ?_⟩⟩
    rintro answer type types buffer fields ok rfl at_pc
    exact elsewhere answer type types buffer fields ok rfl at_pc

end Steps

section Runs

variable {ids : IdManager} {size : Int32} {type : PacketType} {t : TestedMuxer}

theorem reach_muxer
    (reach : (system ids size type).ReachUnder (fun t => PacketMuxer.Posts (PayloadOf size) t.muxer) t) :
    (PacketMuxer.system ids).ReachUnder (PacketMuxer.Posts (PayloadOf size)) t.muxer := by
  induction reach with
  | start => exact .start
  | next _ met run ih => exact .next ih met (step_cases run).1

end Runs

end TestedMuxer

end PacketComms
