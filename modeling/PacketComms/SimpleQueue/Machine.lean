import PacketComms.ComPacket
import PacketComms.Lib.Mutex
import PacketComms.Lib.TransitionSystem
import Mathlib.Logic.Function.Basic

namespace PacketComms

/-- The threads that take `m_lock`: those that call `emplace` and those that call `lock`. -/
inductive QueueThread
  | producer (i : Nat)
  | consumer (i : Nat)
  deriving DecidableEq

/-- `SimpleQueue::LockedQueue`: whether its `m_secureLock` owns `m_lock`. -/
structure LockedQueue where
  owns : Bool
  deriving DecidableEq

/-- The move constructor swaps a `m_secureLock` that owns nothing with that of `other`. The new object comes first. -/
def LockedQueue.moved (other : LockedQueue) : LockedQueue × LockedQueue := (⟨other.owns⟩, ⟨false⟩)

/-- Where a producer is in `emplace`. -/
inductive EmplacePc
  | idle
  | locking (item : SharedPacket)
  | emplacing (item : SharedPacket)
  | notifying
  | unlocking

/-- Where a consumer is. `test`, `waiting` and `relock` are within `waitNotempty`, `front` and `pop` are about to make
that call, `releasing` is the end of the scope of its `LockedQueue`. -/
inductive ConsumePc
  | idle
  | locking
  | locked
  | test
  | waiting (notified : Bool)
  | relock
  | front
  | pop (item : SharedPacket)
  | releasing

/-- A consumer with the `LockedQueue` objects in its scope, the last one made first. -/
structure Consumer where
  pc : ConsumePc := .idle
  scope : List LockedQueue := []

/-- A `SimpleQueue` with its threads. `emplaced` are the packets put into it so far, `consumed` those popped, each with
its consumer and as `front` showed it. -/
structure SimpleQueue where
  lock : Mutex QueueThread := .free
  items : List SharedPacket := []
  producers : Nat → EmplacePc := fun _ => .idle
  consumers : Nat → Consumer := fun _ => {}
  emplaced : List SharedPacket := []
  consumed : List (Nat × SharedPacket) := []

/-- The choices of the scheduler and of the environment. `emplace` and `lock` make these calls, `move` is the move
constructor of `LockedQueue`, `wake` the return from the condition variable, notified or not. -/
inductive QueueAction
  | emplace (i : Nat) (item : SharedPacket)
  | produce (i : Nat)
  | lock (i : Nat)
  | consume (i : Nat)
  | move (i : Nat)
  | wake (i : Nat)

/-- What `notify_all` does to a consumer. -/
def ConsumePc.notified : ConsumePc → ConsumePc
  | .waiting _ => .waiting true
  | pc => pc

/-- Between the calls, where the user may move its `LockedQueue`. -/
def ConsumePc.movable : ConsumePc → Bool
  | .locked | .front | .pop _ => true
  | _ => false

namespace SimpleQueue

def setProducer (q : SimpleQueue) (i : Nat) (pc : EmplacePc) : SimpleQueue :=
  { q with producers := Function.update q.producers i pc }

def setConsumer (q : SimpleQueue) (i : Nat) (c : Consumer) : SimpleQueue :=
  { q with consumers := Function.update q.consumers i c }

/-- The consumer goes on to `pc`. -/
def goto (q : SimpleQueue) (i : Nat) (pc : ConsumePc) : SimpleQueue :=
  q.setConsumer i { q.consumers i with pc := pc }

/-- `m_notEmpty.notify_all()`. -/
def notifyAll (q : SimpleQueue) : SimpleQueue :=
  { q with consumers := fun i => { q.consumers i with pc := (q.consumers i).pc.notified } }

/-- The next step of a call of `emplace`. -/
def produceStep (q : SimpleQueue) (i : Nat) : Option SimpleQueue :=
  match q.producers i with
  | .idle => none
  | .locking item =>
    (q.lock.acquire (.producer i)).map (fun l => { q.setProducer i (.emplacing item) with lock := l })
  | .emplacing item =>
    some { q.setProducer i .notifying with items := q.items ++ [item], emplaced := q.emplaced ++ [item] }
  | .notifying => some (q.notifyAll.setProducer i .unlocking)
  | .unlocking => (q.lock.release (.producer i)).map (fun l => { q.setProducer i .idle with lock := l })

/-- The next step of a consumer. `front` and `pop` have no defined meaning on an empty queue. -/
def consumeStep (q : SimpleQueue) (i : Nat) : Option SimpleQueue :=
  match (q.consumers i).pc with
  | .idle | .waiting _ => none
  | .locking =>
    (q.lock.acquire (.consumer i)).map (fun l => { q.setConsumer i ⟨.locked, [⟨true⟩]⟩ with lock := l })
  | .locked => some (q.goto i .test)
  | .test =>
    if q.items = [] then
      (q.lock.release (.consumer i)).map (fun l => { q.goto i (.waiting false) with lock := l })
    else some (q.goto i .front)
  | .relock => (q.lock.acquire (.consumer i)).map (fun l => { q.goto i .test with lock := l })
  | .front =>
    match q.items with
    | [] => none
    | item :: _ => some (q.goto i (.pop item))
  | .pop item =>
    match q.items with
    | [] => none
    | _ :: items => some { q.goto i .releasing with items := items, consumed := q.consumed ++ [(i, item)] }
  | .releasing =>
    match (q.consumers i).scope with
    | [] => some (q.goto i .idle)
    | ⟨false⟩ :: scope => some (q.setConsumer i ⟨.releasing, scope⟩)
    | ⟨true⟩ :: scope =>
      (q.lock.release (.consumer i)).map (fun l => { q.setConsumer i ⟨.releasing, scope⟩ with lock := l })

def step (q : SimpleQueue) : QueueAction → Option SimpleQueue
  | .emplace i item =>
    match q.producers i with
    | .idle => some (q.setProducer i (.locking item))
    | _ => none
  | .produce i => q.produceStep i
  | .lock i =>
    match (q.consumers i).pc with
    | .idle => some (q.goto i .locking)
    | _ => none
  | .consume i => q.consumeStep i
  | .move i =>
    match (q.consumers i).scope with
    | [] => none
    | guard :: scope =>
      if (q.consumers i).pc.movable then
        some (q.setConsumer i ⟨(q.consumers i).pc, guard.moved.1 :: guard.moved.2 :: scope⟩)
      else none
  | .wake i =>
    match (q.consumers i).pc with
    | .waiting _ => some (q.goto i .relock)
    | _ => none

def system : TransitionSystem SimpleQueue QueueAction where
  start := {}
  step := step

end SimpleQueue

end PacketComms
