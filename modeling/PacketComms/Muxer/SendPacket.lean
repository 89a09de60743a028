import PacketComms.ComPacket

namespace PacketComms

/-- Where a call stands when the answers of the transport end. -/
inductive Status
  | running
  | returned (ok : Bool)
  | aborted
  deriving DecidableEq

/-- What a call that writes has done: the bytes the transport took, the final value
of `size` (of the last `writeBytes`), and the answers it did not need. -/
structure Written where
  accepted : List Byte
  size : Nat
  status : Status
  rest : List IoResult
  deriving DecidableEq

namespace Written

/-- `ok &= next()`: the next call is made whatever this one returned. -/
def andThen (w : Written) (next : List IoResult → Written) : Written :=
  match w.status with
  | .returned ok =>
    let w' := next w.rest
    { accepted := w.accepted ++ w'.accepted
      size := w'.size
      status := match w'.status with
        | .returned ok' => .returned (ok && ok')
        | status => status
      rest := w'.rest }
  | _ => w

end Written

namespace PacketMuxer

/-- `writeBytes` against the answers of the transport. An answer `count n` takes at
most what was offered. -/
def writeBytes (transportError : Bool) : List Byte → List IoResult → Written
  | [], answers => ⟨[], 0, .returned true, answers⟩
  | byte :: buffer, [] => ⟨[], (byte :: buffer).length, .running, []⟩
  | byte :: buffer, .error :: answers => ⟨[], (byte :: buffer).length, .returned false, answers⟩
  | byte :: buffer, .count n :: answers =>
    if transportError then ⟨(byte :: buffer).take n, (byte :: buffer).length, .returned false, answers⟩
    else
      let w := writeBytes transportError ((byte :: buffer).drop n) answers
      { w with accepted := (byte :: buffer).take n ++ w.accepted }

/-- The three calls of `sendPacket`, for any list of buffers. -/
def writeFields (transportError : Bool) : List (List Byte) → List IoResult → Written
  | [], answers => ⟨[], 0, .returned true, answers⟩
  | buffer :: fields, answers =>
    (writeBytes transportError buffer answers).andThen (writeFields transportError fields)

/-- `sendPacket` up to its last line, which stores the negation of the returned `ok`
in `m_transportError`. -/
def sendPacket (transportError : Bool) (packet : ComPacket) (answers : List IoResult) : Written :=
  if packet.type = IdManager.invalidPacket then ⟨[], 0, .aborted, answers⟩
  else writeFields transportError packet.fields answers

/-- What `sendAll` leaves behind. -/
structure Drained where
  accepted : List Byte
  packets : List ComPacket
  transportError : Bool
  numSent : UInt32
  status : Status
  rest : List IoResult
  deriving DecidableEq

/-- `sendAll` on a queue that holds `packets`. -/
def sendAll (transportError : Bool) (numSent : UInt32) : List ComPacket → List IoResult → Drained
  | [], answers => ⟨[], [], transportError, numSent, .returned true, answers⟩
  | packet :: packets, answers =>
    if transportError then ⟨[], packet :: packets, transportError, numSent, .returned true, answers⟩
    else
      let w := sendPacket transportError packet answers
      match w.status with
      | .returned ok =>
        let d := sendAll (!ok) (numSent + 1) packets w.rest
        { d with accepted := w.accepted ++ d.accepted }
      | status => ⟨w.accepted, packet :: packets, transportError, numSent, status, w.rest⟩

end PacketMuxer

end PacketComms
