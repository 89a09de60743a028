import PacketComms.Demuxer.ReceivePacket
import PacketComms.Lib.KeyedLists
import PacketComms.Lib.TransitionSystem

namespace PacketComms

/-- A `PacketSubscriber`. The address tells subscribers of one type apart. -/
structure PacketSubscriber where
  addr : Nat
  type : PacketType
  deriving DecidableEq

/-- A `SubscriberPtr`; `none` is the null pointer. -/
abbrev SubscriberPtr := Option PacketSubscriber

/-- The two callers of `receivePacket`. -/
inductive Caller
  | receiveHelloMessage
  | receiveLoop
  deriving DecidableEq

/-- What a call of `readBytes` is for, with what the earlier calls for the packet have read. -/
inductive Field
  | type
  | size (type : List Byte)
  | payload (type : PacketType)

/-- The third argument of the call of `readBytes`. -/
def Field.onZero : Field → Bool
  | .type => false
  | .size _ | .payload _ => PacketDemuxer.transportErrorOnZeroBytes

/-- Where the receive thread is: in `readyForReading`, at the head of the loop of
`readBytes`, in `read`, behind that loop, back in `receiveHelloMessage` with a packet, or in
the loop of `receiveLoop`. `aborted`: an assertion has failed, the packet's constructor
has thrown, or the message of an empty control packet was read. -/
inductive ReceivePc
  | ready (caller : Caller)
  | test (caller : Caller) (field : Field) (buffer : List Byte) (size : Nat)
  | read (caller : Caller) (field : Field) (buffer : List Byte) (size : Nat)
  | check (caller : Caller) (field : Field) (buffer : List Byte) (size : Nat)
  | greet (packet : ComPacket)
  | loop
  | dispatch (packet : ComPacket)
  | exited
  | aborted

/-- Where the destructor of the demuxer is. -/
inductive DemuxerDestructor
  | notCalled
  | warning
  | joining
  | returned
  deriving DecidableEq

/-- The history: a subscriber enters or leaves its list, the destructor of the handle that
held it returns, and a packet is taken as the handshake, as a control message, or is passed
to the callbacks of some subscribers, in this order. -/
inductive DemuxerEvent
  | subscribed (s : PacketSubscriber)
  | unsubscribed (s : PacketSubscriber)
  | destructed (s : PacketSubscriber)
  | greeted (packet : ComPacket)
  | handled (packet : SharedPacket)
  | dispatched (packet : SharedPacket) (calls : List PacketSubscriber)
  deriving DecidableEq

/-- A `PacketDemuxer` with its thread, its transport and the `PacketSubscription` handles
of the program. `handles i` is `none` where no handle exists, `useCount` gives the use
counts of the subscribers by address. `arrived` is all that ever reached the transport and
`input` what is still to be read, `received` the packets for which `receivePacket` has
returned true, `waits` the answers of `readyForReading`. `fault`: an assertion has failed, an
index was out of range, or a null pointer or a dead demuxer was used. -/
structure PacketDemuxer where
  subscribers : KeyedLists PacketType SubscriberPtr := .empty
  transportError : Bool := false
  receive : ReceivePc := .ready .receiveHelloMessage
  destructor : DemuxerDestructor := .notCalled
  handles : Nat → Option SubscriberPtr := fun _ => none
  useCount : Nat → Nat := fun _ => 0
  nextAddr : Nat := 0
  fault : Bool := false
  arrived : List Byte := []
  input : List Byte := []
  received : List ComPacket := []
  waits : List Bool := []
  log : List DemuxerEvent := []

/-- The choices of the peer, of the transport, of the scheduler and of the program. `receive`
is a step of the receive thread that leaves no choice; handles are named by numbers. -/
inductive DemuxerAction
  | arrive (bytes : List Byte)
  | ready (answer : Bool)
  | read (answer : IoResult)
  | receive
  | subscribe (i : Nat) (name : String)
  | construct (i : Nat)
  | moveConstruct (i j : Nat)
  | moveAssign (i j : Nat)
  | destruct (i : Nat)
  | destroy

/-- A `shared_ptr` to a subscriber goes away. -/
def release (useCount : Nat → Nat) : SubscriberPtr → Nat → Nat
  | none => useCount
  | some s => Function.update useCount s.addr (useCount s.addr - 1)

/-- `std::remove_if` with the predicate of `unsubscribe`: the elements that stay move to the
front in their order, and behind the iterator returned a place keeps its pointer only if
it was not moved from. -/
def removeIf (s : PacketSubscriber) (queue : List SubscriberPtr) : List SubscriberPtr × Nat :=
  let kept := queue.filter (· ≠ some s)
  (kept ++ (queue.drop kept.length).map (fun ptr => if ptr = some s then ptr else none), kept.length)

namespace PacketDemuxer

/-- `PacketDemuxer::subscribe`, with its result in the new handle `i`. -/
def subscribe (ids : IdManager) (d : PacketDemuxer) (i : Nat) (name : String) : Option PacketDemuxer :=
  match d.handles i, d.destructor with
  | some _, _ => none
  | _, .returned => none
  | none, _ =>
    match ids.toId name with
    | none => some d
    | some type =>
      let s : PacketSubscriber := ⟨d.nextAddr, type⟩
      some { d with
        subscribers := d.subscribers.set type (d.subscribers.get type ++ [some s])
        useCount := Function.update d.useCount s.addr 2
        nextAddr := d.nextAddr + 1
        handles := Function.update d.handles i (some (some s))
        log := d.log ++ [.subscribed s] }

/-- `PacketDemuxer::unsubscribe`. -/
def unsubscribe (ids : IdManager) (d : PacketDemuxer) (s : PacketSubscriber) : PacketDemuxer :=
  if d.destructor = .returned ∨ ids.toString s.type = none then { d with fault := true }
  else
    let queue := d.subscribers.get s.type
    let (moved, itr) := removeIf s queue
    if itr = queue.length then { d with fault := true }
    else
      let erased := moved.eraseIdx itr
      { d with
        subscribers := d.subscribers.set s.type erased
        useCount := Function.update d.useCount s.addr
          (d.useCount s.addr - (queue.count (some s) - erased.count (some s)))
        log := d.log ++ [.unsubscribed s] }

/-- `PacketSubscription::~PacketSubscription`, the destructor of the member included. -/
def destruct (ids : IdManager) (d : PacketDemuxer) (i : Nat) : Option PacketDemuxer :=
  match d.handles i with
  | none => none
  | some none => some { d with handles := Function.update d.handles i none }
  | some (some s) =>
    let d' := if d.useCount s.addr > 1 then d.unsubscribe ids s else d
    some { d' with
      useCount := release d'.useCount (some s)
      handles := Function.update d'.handles i none
      log := d'.log ++ [.destructed s] }

/-- The part of `receivePacket` behind a call of `readBytes` that returned true. -/
def fieldRead (d : PacketDemuxer) (caller : Caller) (buffer : List Byte) : Field → PacketDemuxer
  | .type => { d with receive := .test caller (.size buffer) [] 4 }
  | .size type =>
    match ComPacket.ofSize (ntohl type) (ntohl buffer) with
    | none => { d with receive := .aborted }
    | some p => { d with receive := .test caller (.payload p.type) [] p.data.length }
  | .payload type =>
    if type = IdManager.invalidPacket then { d with receive := .aborted }
    else
      { d with
        received := d.received ++ [⟨type, buffer⟩]
        receive :=
          match caller with
          | .receiveHelloMessage => .greet ⟨type, buffer⟩
          | .receiveLoop => .dispatch ⟨type, buffer⟩ }

/-- The part of `receiveHelloMessage` behind the call of `receivePacket`. -/
def greetStep (d : PacketDemuxer) (packet : ComPacket) : PacketDemuxer :=
  let log := d.log ++ [.greeted packet]
  if packet.type = IdManager.controlPacket then
    match packet.data with
    | [] => { d with receive := .aborted }
    | msg :: _ =>
      if msg = ControlMessage.hello.value then { d with receive := .loop, log := log }
      else { d with receive := .loop, transportError := true, log := log }
  else { d with receive := .loop, transportError := true, log := log }

/-- The part of `receiveLoop` behind the call of `receivePacket`. -/
def dispatchStep (d : PacketDemuxer) (packet : ComPacket) : PacketDemuxer :=
  let sptr : SharedPacket := ⟨d.nextAddr, packet⟩
  if packet.type = IdManager.controlPacket then
    { d with receive := .loop, nextAddr := d.nextAddr + 1, log := d.log ++ [.handled sptr] }
  else
    let queue := d.subscribers.get packet.type
    { d with
      subscribers := d.subscribers.touch packet.type
      receive := .loop
      nextAddr := d.nextAddr + 1
      fault := d.fault || queue.contains none
      log := d.log ++ [.dispatched sptr (queue.filterMap id)] }

/-- A step of the receive thread that leaves no choice. -/
def receiveStep (d : PacketDemuxer) : Option PacketDemuxer :=
  match d.receive with
  | .test caller field buffer size =>
    if size > 0 ∧ d.transportError = false then some { d with receive := .read caller field buffer size }
    else some { d with receive := .check caller field buffer size }
  | .check caller field buffer _ =>
    if d.transportError then some { d with receive := .loop } else some (d.fieldRead caller buffer field)
  | .greet packet => some (d.greetStep packet)
  | .loop =>
    some { d with receive := if d.transportError = false then .ready .receiveLoop else .exited }
  | .dispatch packet => some (d.dispatchStep packet)
  | _ => none

/-- The next step of `~PacketDemuxer`. -/
def destroyStep (ids : IdManager) (d : PacketDemuxer) : Option PacketDemuxer :=
  match d.destructor, d.receive with
  | .notCalled, _ => some { d with transportError := true, destructor := .warning }
  | .warning, _ =>
    some { d with
      destructor := .joining
      fault := d.fault || d.subscribers.keys.any (fun type =>
        d.subscribers.get type ≠ [] ∧ ids.toString type = none) }
  | .joining, .exited =>
    some { d with
      destructor := .returned
      subscribers := .empty
      useCount := (d.subscribers.keys.flatMap d.subscribers.get).foldl release d.useCount }
  | _, _ => none

/-- One step of the process. After an abort there is none. -/
def step (ids : IdManager) (d : PacketDemuxer) (action : DemuxerAction) : Option PacketDemuxer :=
  match d.receive, action with
  | .aborted, _ => none
  | _, .arrive bytes => some { d with arrived := d.arrived ++ bytes, input := d.input ++ bytes }
  | .ready caller, .ready answer =>
    some { d with
      waits := d.waits ++ [answer]
      receive := if answer then .test caller .type [] 4 else .loop }
  | .read _ _ _ _, .read .error => some { d with transportError := true, receive := .loop }
  | .read caller field buffer size, .read (.count n) =>
    if n ≤ size ∧ n ≤ d.input.length then
      if n = 0 ∧ field.onZero then some { d with transportError := true, receive := .loop }
      else
        some { d with
          input := d.input.drop n
          receive := .test caller field (buffer ++ d.input.take n) (size - n) }
    else none
  | _, .receive => d.receiveStep
  | _, .subscribe i name => d.subscribe ids i name
  | _, .construct i =>
    match d.handles i with
    | none => some { d with handles := Function.update d.handles i (some none) }
    | some _ => none
  | _, .moveConstruct i j =>
    match d.handles i, d.handles j with
    | none, some ptr =>
      some { d with handles := Function.update (Function.update d.handles j (some none)) i (some ptr) }
    | _, _ => none
  | _, .moveAssign i j =>
    match d.handles i, d.handles j with
    | some this, some toMove =>
      some { d with handles := Function.update (Function.update d.handles i (some toMove)) j (some this) }
    | _, _ => none
  | _, .destruct i => d.destruct ids i
  | _, .destroy => d.destroyStep ids
  | _, _ => none

/-- A demuxer whose constructor has just launched the receive thread. -/
def system (ids : IdManager) : TransitionSystem PacketDemuxer DemuxerAction where
  start := {}
  step := step ids

end PacketDemuxer

end PacketComms
