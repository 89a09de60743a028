import PacketComms.Demuxer.Dispatch
import PacketComms.Lib.Mutex

namespace PacketComms

/-- The receive thread, and the other threads that take `m_subscriberLock`. -/
inductive DemuxerThread
  | receive
  | program
  deriving DecidableEq

/-- Where the receive thread is in the part of `receiveLoop` that posts a packet to the subscribers. `queue` is their
list when the range-for begins and `index` the one it is at, `relocking` a callback that asks for `m_subscriberLock`. -/
inductive DispatchPc
  | outside
  | loop (queue : List SubscriberPtr) (index : Nat)
  | callback (queue : List SubscriberPtr) (index : Nat)
  | relocking (queue : List SubscriberPtr) (index : Nat)

/-- A `PacketDemuxer` whose callbacks take time, and `m_subscriberLock`. What the other threads do under the lock is one
step, so that only the receive thread is ever seen to hold it. -/
structure LockedDemuxer where
  demuxer : PacketDemuxer := {}
  subscriberLock : Mutex DemuxerThread := .free
  dispatch : DispatchPc := .outside

/-- `outer` is a step as before, of the program or of the receive thread outside the dispatch; the others make up the
dispatch. `callback` is an operation within a callback. -/
inductive LockedAction
  | outer (action : DemuxerAction)
  | lock
  | invoke
  | callback (action : DemuxerAction)
  | returns
  | unlock

/-- An operation on `PacketSubscription` handles. -/
def DemuxerAction.onHandles : DemuxerAction → Bool
  | .subscribe .. | .construct _ | .moveConstruct .. | .moveAssign .. | .destruct _ => true
  | _ => false

/-- The operations that take `m_subscriberLock`: `subscribe` once the name is found, the destructor of a handle that
calls `unsubscribe`, and `warnAboutSubscribers`. -/
def PacketDemuxer.takesLock (ids : IdManager) (d : PacketDemuxer) : DemuxerAction → Bool
  | .subscribe _ name => (ids.toId name).isSome
  | .destruct i =>
    match d.handles i with
    | some (some s) => decide (d.useCount s.addr > 1)
    | _ => false
  | .destroy => decide (d.destructor = .warning)
  | _ => false

namespace LockedDemuxer

/-- A step that leaves the lock and the dispatch as they are. -/
def outerStep (ids : IdManager) (l : LockedDemuxer) (action : DemuxerAction) : Option LockedDemuxer :=
  (PacketDemuxer.step ids l.demuxer action).map (fun d => { l with demuxer := d })

/-- An operation within the callback at `index`: on handles, or the destructor of the demuxer. One that takes the lock
gets no further. -/
def callbackStep (ids : IdManager) (l : LockedDemuxer) (queue : List SubscriberPtr) (index : Nat)
    (action : DemuxerAction) : Option LockedDemuxer :=
  if action.onHandles then
    if l.demuxer.takesLock ids action then
      match l.subscriberLock.acquire .receive with
      | some _ => l.outerStep ids action
      | none => (l.outerStep ids action).map (fun _ => { l with dispatch := .relocking queue index })
    else l.outerStep ids action
  else
    match action, l.demuxer.destructor with
    | .destroy, .notCalled => (l.outerStep ids action).map (fun l => { l with dispatch := .relocking queue index })
    | _, _ => none

def step (ids : IdManager) (l : LockedDemuxer) (action : LockedAction) : Option LockedDemuxer :=
  match action, l.demuxer.receive, l.dispatch with
  | .outer .receive, .dispatch packet, _ =>
    if packet.type = IdManager.controlPacket then l.outerStep ids .receive else none
  | .outer action, _, _ =>
    if l.demuxer.takesLock ids action then (l.subscriberLock.acquire .program).bind (fun _ => l.outerStep ids action)
    else l.outerStep ids action
  | .lock, .dispatch packet, .outside =>
    if packet.type = IdManager.controlPacket then none
    else
      (l.subscriberLock.acquire .receive).map (fun m =>
        { demuxer := { l.demuxer with subscribers := l.demuxer.subscribers.touch packet.type }
          subscriberLock := m
          dispatch := .loop (l.demuxer.subscribers.get packet.type) 0 })
  | .invoke, .dispatch packet, .loop queue index =>
    if index = queue.length then none
    else
      match (l.demuxer.subscribers.get packet.type)[index]? with
      | some (some _) => some { l with dispatch := .callback queue index }
      | _ => none
  | .callback action, _, .callback queue index => l.callbackStep ids queue index action
  | .returns, _, .callback queue index => some { l with dispatch := .loop queue (index + 1) }
  | .unlock, .dispatch packet, .loop queue index =>
    if index = queue.length then
      (l.subscriberLock.release .receive).map (fun m =>
        { demuxer := l.demuxer.dispatchStep packet, subscriberLock := m, dispatch := .outside })
    else none
  | _, _, _ => none

def system (ids : IdManager) : TransitionSystem LockedDemuxer LockedAction where
  start := {}
  step := step ids

/-- What a callback may do: it does not subscribe under a known name, does not destroy a handle that has a subscriber,
and does not destroy the demuxer. -/
def Permitted (ids : IdManager) (l : LockedDemuxer) : LockedAction → Prop
  | .callback (.subscribe _ name) => ids.toId name = none
  | .callback (.destruct i) => ∀ s, l.demuxer.handles i ≠ some (some s)
  | .callback .destroy => False
  | _ => True

/-- The receive thread does not ask for the lock that it holds, and the list it iterates over is as it was. -/
structure Safe (l : LockedDemuxer) : Prop where
  lock : ∀ queue index, l.dispatch = .relocking queue index → l.subscriberLock ≠ .held .receive
  list : ∀ queue index packet, l.dispatch = .loop queue index ∨ l.dispatch = .callback queue index →
    l.demuxer.receive = .dispatch packet → l.demuxer.subscribers.get packet.type = queue

end LockedDemuxer

end PacketComms
