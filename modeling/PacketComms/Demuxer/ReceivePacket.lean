import PacketComms.Muxer.SendPacket

namespace PacketComms

/-- What `readBytes` has done: the bytes it stored, the final value of `size`, the bytes of
the stream behind them, the flag, and the answers it did not need. -/
structure ReadDone where
  buffer : List Byte
  size : Nat
  input : List Byte
  transportError : Bool
  status : Status
  rest : List IoResult
  deriving DecidableEq

/-- What `receivePacket` has done. -/
structure Received where
  packet : ComPacket
  input : List Byte
  transportError : Bool
  status : Status
  rest : List IoResult
  deriving DecidableEq

namespace PacketDemuxer

/-- The third argument of `readBytes` where a caller leaves it out. -/
def transportErrorOnZeroBytes : Bool := false

/-- `readBytes` against the answers of the transport, with `buffer` stored so far. An
answer `count n` gives at most what was asked for and what has arrived. -/
def readBytes (onZero transportError : Bool) (size : Nat) (input buffer : List Byte) :
    List IoResult → ReadDone
  | [] =>
    if size > 0 ∧ transportError = false then ⟨buffer, size, input, transportError, .running, []⟩
    else ⟨buffer, size, input, transportError, .returned !transportError, []⟩
  | answer :: answers =>
    if size > 0 ∧ transportError = false then
      match answer with
      | .error => ⟨buffer, size, input, true, .returned false, answers⟩
      | .count n =>
        let got := input.take (min n size)
        if got.length = 0 ∧ onZero then ⟨buffer, size, input, true, .returned false, answers⟩
        else readBytes onZero transportError (size - got.length) (input.drop got.length) (buffer ++ got) answers
    else ⟨buffer, size, input, transportError, .returned !transportError, answer :: answers⟩

/-- `receivePacket` after `readyForReading` has answered `ready`. The size reaches the
constructor of the packet as an `int`. -/
def receivePacket (ready transportError : Bool) (input : List Byte) (packet : ComPacket)
    (answers : List IoResult) : Received :=
  if ready = false then ⟨packet, input, transportError, .returned false, answers⟩
  else
    let t := readBytes false transportError 4 input [] answers
    match t.status with
    | .returned true =>
      let s := readBytes transportErrorOnZeroBytes t.transportError 4 t.input [] t.rest
      match s.status with
      | .returned true =>
        let type := ntohl t.buffer
        let size := ntohl s.buffer
        match ComPacket.ofSize type size with
        | none => ⟨packet, s.input, s.transportError, .aborted, s.rest⟩
        | some p =>
          let d := readBytes transportErrorOnZeroBytes s.transportError p.data.length s.input [] s.rest
          match d.status with
          | .returned true =>
            if type = IdManager.invalidPacket then ⟨⟨type, d.buffer⟩, d.input, d.transportError, .aborted, d.rest⟩
            else ⟨⟨type, d.buffer⟩, d.input, d.transportError, .returned true, d.rest⟩
          | status => ⟨packet, d.input, d.transportError, status, d.rest⟩
      | status => ⟨packet, s.input, s.transportError, status, s.rest⟩
    | status => ⟨packet, t.input, t.transportError, status, t.rest⟩

/-- Successive calls of `receivePacket` with data ready, as long as they return true: the
packets, and what the last call has done. -/
def receivePackets : Nat → Received → List ComPacket × Received
  | 0, r => ([], r)
  | calls + 1, r =>
    let r' := receivePacket true r.transportError r.input r.packet r.rest
    if r'.status = .returned true then
      let (packets, last) := receivePackets calls r'
      (r'.packet :: packets, last)
    else ([], r')

end PacketDemuxer

end PacketComms
