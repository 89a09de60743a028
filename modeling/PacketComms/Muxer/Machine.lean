import PacketComms.Muxer.SendPacket
import PacketComms.Lib.KeyedLists
import PacketComms.Lib.RecursiveMutex
import PacketComms.Lib.TransitionSystem

namespace PacketComms

/-- The threads that take `m_txLock`: the send thread, the one that runs the
destructor, and those that post. -/
inductive MuxerThread
  | send
  | destructor
  | user (i : Nat)
  deriving DecidableEq

/-- Where a thread is in `emplacePacket`. `signalling` is the call of
`signalPacketPosted`, `unlocking` the end of the guard, also when the packet's
constructor has thrown. -/
inductive PostPc
  | idle
  | locking (name : String) (type : PacketType) (args : PacketArgs)
  | emplacing (name : String) (type : PacketType) (args : PacketArgs)
  | signalling
  | unlocking

/-- Where the send thread is in `sendLoop` and in what it calls. `types` are the
queues the range-for has still to visit, `fields` the buffers `sendPacket` has still
to write. An assertion that fails leads to `aborted`. -/
inductive SendPc
  | entered
  | hello (pc : PostPc)
  | lock
  | test
  | compare
  | waiting (notified : Bool)
  | relock (timeout : Bool)
  | heartBeat (pc : PostPc)
  | scan
  | visit (types : List PacketType)
  | drain (type : PacketType) (types : List PacketType)
  | write (type : PacketType) (types : List PacketType) (fields : List (List Byte)) (ok : Bool)
  | assign (type : PacketType) (types : List PacketType) (ok : Bool)
  | pop (type : PacketType) (types : List PacketType)
  | unlock
  | exited
  | aborted (type : PacketType)

/-- Where the destructor is. -/
inductive DestructorPc
  | notCalled
  | locking
  | storing
  | unlocking
  | joining
  | returned
  deriving DecidableEq

/-- The history of the queues: a packet put into its queue under a name, handed to
`sendPacket`, popped. -/
inductive MuxerEvent
  | posted (name : String) (packet : SharedPacket)
  | handed (packet : SharedPacket)
  | popped (packet : SharedPacket)
  deriving DecidableEq

/-- A `PacketMuxer` with its threads and its transport. `wire` is what the transport
has accepted, `written` the packets whose three fields were written without an error. -/
structure PacketMuxer where
  txLock : RecursiveMutex MuxerThread := .free
  txQueues : KeyedLists PacketType SharedPacket := .empty
  numPosted : UInt32 := 0
  numSent : UInt32 := 0
  transportError : Bool := false
  send : SendPc := .entered
  users : Nat → PostPc := fun _ => .idle
  destructor : DestructorPc := .notCalled
  nextAddr : Nat := 0
  wire : List Byte := []
  written : List SharedPacket := []
  log : List MuxerEvent := []

/-- The choices of the scheduler and of the environment. `post` calls `emplacePacket`,
`user` and `destroyed` take the next step of a call, with `alloc` the outcome of the
allocation of the packet; the others are the send thread's. -/
inductive MuxerAction
  | post (i : Nat) (name : String) (args : PacketArgs)
  | user (i : Nat) (alloc : Bool)
  | send
  | wake (timeout : Bool)
  | iterate (types : List PacketType)
  | write (answer : IoResult)
  | destroy
  | destroyed

namespace PacketMuxer

/-- `m_txReady.notify_one` and `notify_all`: only the send thread ever waits. -/
def notify (m : PacketMuxer) : PacketMuxer :=
  match m.send with
  | .waiting _ => { m with send := .waiting true }
  | _ => m

/-- `signalPacketPosted`. -/
def signalPacketPosted (m : PacketMuxer) : PacketMuxer :=
  { m with numPosted := m.numPosted + 1 }.notify

/-- The next step of a call of `emplacePacket` made by `t`, after the name lookup. -/
def emplaceStep (m : PacketMuxer) (t : MuxerThread) (alloc : Bool) : PostPc → Option (PostPc × PacketMuxer)
  | .idle => none
  | .locking name type args => do
    let l ← m.txLock.acquire t
    return (.emplacing name type args, { m with txLock := l })
  | .emplacing name type args =>
    match (if alloc then ComPacket.make type args else none) with
    | none => some (.unlocking, { m with txQueues := m.txQueues.touch type })
    | some packet =>
      let sptr : SharedPacket := ⟨m.nextAddr, packet⟩
      some (.signalling, { m with
        txQueues := m.txQueues.set type (m.txQueues.get type ++ [sptr])
        nextAddr := m.nextAddr + 1
        log := m.log ++ [.posted name sptr] })
  | .signalling => some (.unlocking, m.signalPacketPosted)
  | .unlocking => do
    let l ← m.txLock.release t
    return (.idle, { m with txLock := l })

/-- A step of the send thread that leaves no choice. -/
def sendStep (ids : IdManager) (m : PacketMuxer) : Option PacketMuxer :=
  match m.send with
  | .entered =>
    (ids.toId IdManager.controlString).map (fun type =>
      { m with send := .hello (.locking IdManager.controlString type ControlMessage.hello.args) })
  | .hello .idle => some { m with send := .lock }
  | .hello pc => (m.emplaceStep .send true pc).map (fun (pc, m) => { m with send := .hello pc })
  | .lock => (m.txLock.acquire .send).map (fun l => { m with txLock := l, send := .test })
  | .test => some { m with send := if m.transportError = false then .compare else .unlock }
  | .compare =>
    if m.numPosted = m.numSent then
      (m.txLock.release .send).map (fun l => { m with txLock := l, send := .waiting false })
    else some { m with send := .scan }
  | .relock timeout =>
    (m.txLock.acquire .send).bind (fun l =>
      if timeout then
        (ids.toId IdManager.controlString).map (fun type =>
          { m with
            txLock := l
            send := .heartBeat (.locking IdManager.controlString type ControlMessage.heartBeat.args) })
      else some { m with txLock := l, send := .scan })
  | .heartBeat .idle => some { m with send := .scan }
  | .heartBeat pc => (m.emplaceStep .send true pc).map (fun (pc, m) => { m with send := .heartBeat pc })
  | .visit [] => some { m with send := .test }
  | .visit (type :: types) => some { m with send := .drain type types }
  | .drain type types =>
    match m.transportError, m.txQueues.get type with
    | false, packet :: _ =>
      some { m with
        send :=
          if packet.packet.type = IdManager.invalidPacket then .aborted type
          else .write type types packet.packet.fields true
        log := m.log ++ [.handed packet] }
    | _, _ => some { m with send := .visit types }
  | .write type types [] ok => some { m with send := .assign type types ok }
  | .write type types ([] :: fields) ok => some { m with send := .write type types fields ok }
  | .assign type types ok =>
    some { m with
      transportError := !ok
      written := if ok then m.written ++ (m.txQueues.get type).take 1 else m.written
      send := .pop type types }
  | .pop type types =>
    match m.txQueues.get type with
    | [] => none
    | packet :: packets =>
      some { m with
        txQueues := m.txQueues.set type packets
        numSent := m.numSent + 1
        send := .drain type types
        log := m.log ++ [.popped packet] }
  | .unlock => (m.txLock.release .send).map (fun l => { m with txLock := l, send := .exited })
  | _ => none

/-- One turn of the loop of `writeBytes`, once the transport has answered. -/
def writeStep (m : PacketMuxer) (answer : IoResult) : Option PacketMuxer :=
  match m.send with
  | .write type types ((byte :: buffer) :: fields) ok =>
    match answer with
    | .error => some { m with send := .write type types fields false }
    | .count n =>
      some { m with
        wire := m.wire ++ (byte :: buffer).take n
        send :=
          if m.transportError then .write type types fields false
          else .write type types ((byte :: buffer).drop n :: fields) ok }
  | _ => none

/-- The next step of the destructor. -/
def destructorStep (m : PacketMuxer) : Option PacketMuxer :=
  match m.destructor with
  | .locking => (m.txLock.acquire .destructor).map (fun l => { m with txLock := l, destructor := .storing })
  | .storing => some { m with transportError := true, destructor := .unlocking }.notify
  | .unlocking => (m.txLock.release .destructor).map (fun l => { m with txLock := l, destructor := .joining })
  | .joining =>
    match m.send with
    | .exited => some { m with destructor := .returned }
    | _ => none
  | _ => none

/-- One step of the process. After an abort there is none. -/
def step (ids : IdManager) (m : PacketMuxer) (action : MuxerAction) : Option PacketMuxer :=
  match m.send, action with
  | .aborted _, _ => none
  | _, .post i name args =>
    match m.users i with
    | .idle =>
      match ids.toId name with
      | none => some m
      | some type => some { m with users := Function.update m.users i (.locking name type args) }
    | _ => none
  | _, .user i alloc =>
    (m.emplaceStep (.user i) alloc (m.users i)).map (fun (pc, m) =>
      { m with users := Function.update m.users i pc })
  | _, .send => m.sendStep ids
  | .waiting _, .wake timeout => some { m with send := .relock timeout }
  | .scan, .iterate types =>
    if types.Perm m.txQueues.keys then some { m with send := .visit types } else none
  | _, .write answer => m.writeStep answer
  | _, .destroy =>
    match m.destructor with
    | .notCalled => some { m with destructor := .locking }
    | _ => none
  | _, .destroyed => m.destructorStep
  | _, _ => none

/-- A muxer whose constructor has just launched the send thread. -/
def system (ids : IdManager) : TransitionSystem PacketMuxer MuxerAction where
  start := {}
  step := step ids

end PacketMuxer

end PacketComms
