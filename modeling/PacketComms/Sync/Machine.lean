import PacketComms.Link
import PacketComms.Sync.Rounds

namespace PacketComms

/-- What the cereal archives do with one `bool`. `decode` throws where it is `none`. -/
structure BoolArchive where
  encode : Bool → List Byte
  decode : List Byte → Option Bool
  faithful : ∀ b, decode (encode b) = some b
  short : ∀ b, (encode b).length < 2 ^ 31

/-- Where a side is: between its calls, in `subscribe`, at the test of the flag, in `serialise`
before and during the call of `emplacePacket`, asleep, or in the destructor of the
subscription. `terminated`: an exception has left the call or the callback. -/
inductive SyncPc
  | outside
  | subscribing
  | testing
  | serialising
  | emplacing
  | sleeping
  | leaving
  | terminated
  deriving DecidableEq

/-- What a call does after the test of its flag and after `serialise`. -/
structure SyncCode where
  tested : Bool → SyncPc
  serialised : SyncPc

/-- The server's call: ready messages until `clientReady` is set. -/
def syncWithClient : SyncCode where
  tested clientReady := if !clientReady then .serialising else .leaving
  serialised := .sleeping

/-- The client's call: one ready message after `serverReady` is set. -/
def syncWithServer : SyncCode where
  tested serverReady := if !serverReady then .sleeping else .serialising
  serialised := .leaving

def Role.code : Role → SyncCode
  | .server => syncWithClient
  | .client => syncWithServer

/-- The thread of one side, with the flag of the call that it is in and the calls that have
returned. -/
structure SyncSide where
  pc : SyncPc := .outside
  ready : Bool := false
  done : Nat := 0

namespace SyncSide

/-- The callback of the subscription in `handle`, in a dispatch that the demuxer has logged. -/
def callback (archive : BoolArchive) (handle : Option SubscriberPtr) (s : SyncSide) : DemuxerEvent → SyncSide
  | .dispatched packet calls =>
    match handle with
    | some (some subscriber) =>
      if subscriber ∈ calls then
        match archive.decode packet.packet.data with
        | some _ => { s with ready := true }
        | none => { s with pc := .terminated }
      else s
    | _ => s
  | _ => s

/-- The calls that have begun. -/
def entered (s : SyncSide) : Nat := if s.pc = .outside then s.done else s.done + 1

/-- The subscription of the call exists. -/
def Subscribed (s : SyncSide) : Prop := s.pc ≠ .outside ∧ s.pc ≠ .subscribing

instance (s : SyncSide) : Decidable s.Subscribed := inferInstanceAs (Decidable (_ ∧ _))

/-- The calls whose flag has been set. -/
def released (s : SyncSide) : Nat := if s.Subscribed ∧ s.ready = true then s.done + 1 else s.done

/-- The side is in a call whose flag is not set. -/
def Blocked (s : SyncSide) : Prop := s.pc ≠ .outside ∧ s.ready = false

end SyncSide

/-- A server and a client that synchronise. `links r` leads from the muxer of `r` to the
demuxer of its peer. -/
structure SyncPair where
  sides : Role → SyncSide := fun _ => {}
  links : Role → Link := fun _ => {}

/-- What the threads and the transport of a link do, or the next step of a side. -/
inductive SyncAction
  | link (r : Role) (action : LinkAction)
  | side (r : Role)

/-- The actions that are not part of a call that the program makes. -/
def LinkAction.internal : LinkAction → Bool
  | .muxer .send | .muxer (.wake _) | .muxer (.iterate _) | .muxer (.write _) => true
  | .demuxer (.ready _) | .demuxer (.read _) | .demuxer .receive => true
  | _ => false

/-- A read or a write that fails. -/
def LinkAction.fails : LinkAction → Bool
  | .muxer (.write .error) | .demuxer (.read .error) => true
  | _ => false

/-- The action is the dispatch of a packet of the type. -/
def LinkAction.delivers (type : PacketType) (l : Link) : LinkAction → Bool
  | .demuxer .receive =>
    match l.demuxer.receive with
    | .dispatch packet => packet.type = type
    | _ => false
  | _ => false

namespace SyncPair

def setSide (p : SyncPair) (r : Role) (s : SyncSide) : SyncPair :=
  { p with sides := Function.update p.sides r s }

section Steps

variable (ids : IdManager) (archive : BoolArchive) (readyMsgStr : String) (k : Nat)

/-- A step of a link, with the callbacks that it makes. -/
def linkStep (p : SyncPair) (r : Role) (action : LinkAction) : Option SyncPair :=
  (Link.step ids (p.links r) action).map (fun l =>
    { sides := Function.update p.sides r.peer
        ((l.demuxer.log.drop (p.links r).demuxer.log.length).foldl
          (SyncSide.callback archive (l.demuxer.handles 0)) (p.sides r.peer))
      links := Function.update p.links r l })

/-- The next step of the call that a side is in, or of its `k` calls. The subscription is in
handle 0 of its demuxer, and the call of `emplacePacket` is made by user 0 of its muxer. -/
def sideStep (p : SyncPair) (r : Role) : Option SyncPair :=
  let s := p.sides r
  match s.pc with
  | .outside => if s.done < k then some (p.setSide r { s with pc := .subscribing, ready := false }) else none
  | .subscribing =>
    match ids.toId readyMsgStr with
    | none => some (p.setSide r { s with pc := .terminated })
    | some _ =>
      (p.linkStep ids archive r.peer (.demuxer (.subscribe 0 readyMsgStr))).map (·.setSide r { s with pc := .testing })
  | .testing => some (p.setSide r { s with pc := r.code.tested s.ready })
  | .serialising =>
    (p.linkStep ids archive r (.muxer (.post 0 readyMsgStr (.moved (archive.encode true))))).map
      (·.setSide r { s with pc := .emplacing })
  | .emplacing =>
    match (p.links r).muxer.users 0 with
    | .idle => some (p.setSide r { s with pc := r.code.serialised })
    | _ => p.linkStep ids archive r (.muxer (.user 0 true))
  | .sleeping => some (p.setSide r { s with pc := .testing })
  | .leaving =>
    (p.linkStep ids archive r.peer (.demuxer (.destruct 0))).map
      (·.setSide r { s with pc := .outside, done := s.done + 1 })
  | .terminated => none

def step (p : SyncPair) : SyncAction → Option SyncPair
  | .link r action => if action.internal then p.linkStep ids archive r action else none
  | .side r => p.sideStep ids archive readyMsgStr k r

/-- Two muxers and two demuxers that have just been constructed, and two programs that are
about to make `k` calls each. -/
def system : TransitionSystem SyncPair SyncAction where
  start := {}
  step := step ids archive readyMsgStr k

end Steps

/-- No read or write fails, and the calls begin when both handshakes are done. -/
def Steady (p : SyncPair) : SyncAction → Prop
  | .link _ action => action.fails = false
  | .side r => (p.sides r).pc = .outside →
      .greeted ControlMessage.hello.packet ∈ (p.links .server).demuxer.log ∧
      .greeted ControlMessage.hello.packet ∈ (p.links .client).demuxer.log

/-- No ready message releases a call of the client while the server has not begun its own
call of that round, and no acknowledgement is dispatched while the server has no subscription. -/
def Unmixed (type : PacketType) (p : SyncPair) : SyncAction → Prop
  | .link .server action => action.delivers type (p.links .server) = true → (p.sides .client).Subscribed →
      (p.sides .client).ready = false → (p.sides .client).done < (p.sides .server).entered
  | .link .client action => action.delivers type (p.links .client) = true → (p.sides .server).Subscribed
  | .side _ => True

instance (p : SyncPair) : (action : SyncAction) → Decidable (Steady p action)
  | .link _ _ => inferInstanceAs (Decidable (_ = _))
  | .side _ => inferInstanceAs (Decidable (_ → _))

instance (type : PacketType) (p : SyncPair) : (action : SyncAction) → Decidable (Unmixed type p action)
  | .link .server _ => inferInstanceAs (Decidable (_ → _))
  | .link .client _ => inferInstanceAs (Decidable (_ → _))
  | .side _ => inferInstanceAs (Decidable True)

/-- The ready messages of the link that were posted and are not yet dispatched. -/
def inFlight (readyMsgStr : String) (type : PacketType) (l : Link) : Nat :=
  (postedUnder readyMsgStr l.muxer.log).length - ((dispatches l.demuxer.log).filter (·.packet.type = type)).length

end SyncPair

end PacketComms
