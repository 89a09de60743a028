import PacketComms.Muxer.WriteBytes
import Mathlib.Logic.Function.Basic

namespace PacketComms

namespace PacketMuxer

/-- What a pass of `sendLoop` over the queues leaves behind. `sent` are the packets it has popped. -/
structure Passed where
  accepted : List Byte
  sent : List ComPacket
  queues : PacketType → List ComPacket
  transportError : Bool
  numSent : UInt32
  status : Status
  rest : List IoResult

/-- Bytes and packets that went ahead of what the pass does. -/
def Passed.behind (p : Passed) (accepted : List Byte) (sent : List ComPacket) : Passed :=
  { p with accepted := accepted ++ p.accepted, sent := sent ++ p.sent }

@[simp] theorem Passed.behind_nil (p : Passed) : p.behind [] [] = p := rfl

@[simp] theorem Passed.behind_behind (p : Passed) (accepted accepted' : List Byte) (sent sent' : List ComPacket) :
    (p.behind accepted' sent').behind accepted sent = p.behind (accepted ++ accepted') (sent ++ sent') := by
  simp [Passed.behind]

/-- The range-for of `sendLoop`, which visits the queues of `types` in this order. -/
def sendPass (transportError : Bool) (numSent : UInt32) (queues : PacketType → List ComPacket) :
    List PacketType → List IoResult → Passed
  | [], answers => ⟨[], [], queues, transportError, numSent, .returned true, answers⟩
  | type :: types, answers =>
    let d := sendAll transportError numSent (queues type) answers
    let sent := (queues type).take ((queues type).length - d.packets.length)
    let queues := Function.update queues type d.packets
    match d.status with
    | .returned _ => (sendPass d.transportError d.numSent queues types d.rest).behind d.accepted sent
    | status => ⟨d.accepted, sent, queues, d.transportError, d.numSent, status, d.rest⟩

/-- `sendAll` takes packets from the front only. -/
theorem sendAll_suffix (transportError : Bool) (numSent : UInt32) (packets : List ComPacket) (answers : List IoResult) :
    (sendAll transportError numSent packets answers).packets <:+ packets := by
  induction packets generalizing transportError numSent answers with
  | nil => exact List.suffix_rfl
  | cons packet packets ih =>
    unfold sendAll
    split
    · exact List.suffix_rfl
    · dsimp only
      split
      · exact (ih _ _ _).trans (List.suffix_cons packet packets)
      · exact List.suffix_rfl

/-- With the error noted nothing is sent. -/
theorem sendPass_stopped (numSent : UInt32) (queues : PacketType → List ComPacket) (types : List PacketType)
    (answers : List IoResult) :
    sendPass true numSent queues types answers = ⟨[], [], queues, true, numSent, .returned true, answers⟩ := by
  induction types with
  | nil => rfl
  | cons type types ih =>
    have stopped :
        sendAll true numSent (queues type) answers = ⟨[], queues type, true, numSent, .returned true, answers⟩ := by
      cases queues type <;> simp [sendAll]
    simp only [sendPass, stopped, Nat.sub_self, List.take_zero, Function.update_eq_self, ih]
    rfl

/-- An empty queue changes nothing. -/
theorem sendPass_empty {transportError : Bool} {numSent : UInt32} {queues : PacketType → List ComPacket}
    {type : PacketType} (empty : queues type = []) (types : List PacketType) (answers : List IoResult) :
    sendPass transportError numSent queues (type :: types) answers =
      sendPass transportError numSent queues types answers := by
  have same : Function.update queues type [] = queues := by rw [← empty, Function.update_eq_self]
  simp only [sendPass, empty, sendAll, List.length_nil, List.take_nil, same]
  rfl

/-- The first packet of the first queue, and then the pass over what is left. -/
theorem sendPass_cons {numSent : UInt32} {queues : PacketType → List ComPacket} {type : PacketType} {packet : ComPacket}
    {packets : List ComPacket} (queue : queues type = packet :: packets) (valid : packet.type ≠ IdManager.invalidPacket)
    (types : List PacketType) (answers : List IoResult) :
    sendPass false numSent queues (type :: types) answers =
      match (writeFields false packet.fields answers).status with
      | .returned ok =>
        (sendPass (!ok) (numSent + 1) (Function.update queues type packets) (type :: types)
          (writeFields false packet.fields answers).rest).behind
            (writeFields false packet.fields answers).accepted [packet]
      | status =>
        ⟨(writeFields false packet.fields answers).accepted, [], queues, false, numSent, status,
          (writeFields false packet.fields answers).rest⟩ := by
  have frame : sendPacket false packet answers = writeFields false packet.fields answers := by simp [sendPacket, valid]
  have same : Function.update queues type (packet :: packets) = queues := by rw [← queue, Function.update_eq_self]
  simp only [sendPass, queue, sendAll, Bool.false_eq_true, if_false, frame, Function.update_self]
  cases (writeFields false packet.fields answers).status with
  | running | aborted => simp [same]
  | returned ok =>
    dsimp only
    have shorter :=
      (sendAll_suffix (!ok) (numSent + 1) packets (writeFields false packet.fields answers).rest).length_le
    have count : (packet :: packets).length -
        (sendAll (!ok) (numSent + 1) packets (writeFields false packet.fields answers).rest).packets.length =
        packets.length -
          (sendAll (!ok) (numSent + 1) packets (writeFields false packet.fields answers).rest).packets.length + 1 := by
      rw [List.length_cons]
      omega
    rw [count, List.take_succ_cons]
    cases (sendAll (!ok) (numSent + 1) packets (writeFields false packet.fields answers).rest).status <;>
      simp [Passed.behind]

/-- The pass ends the process where a queue has a packet that must not be sent at its front. -/
theorem sendPass_invalid {numSent : UInt32} {queues : PacketType → List ComPacket} {type : PacketType}
    {packet : ComPacket} {packets : List ComPacket} (queue : queues type = packet :: packets)
    (invalid : packet.type = IdManager.invalidPacket) (types : List PacketType) (answers : List IoResult) :
    sendPass false numSent queues (type :: types) answers = ⟨[], [], queues, false, numSent, .aborted, answers⟩ := by
  have same : Function.update queues type (packet :: packets) = queues := by rw [← queue, Function.update_eq_self]
  simp [sendPass, queue, sendAll, sendPacket, invalid, same]

end PacketMuxer

end PacketComms
