import PacketComms.Demuxer.Delivery
import PacketComms.Muxer.Posting
import PacketComms.Muxer.Wire

namespace PacketComms

/-- A muxer and a demuxer joined by a byte stream. -/
structure Link where
  muxer : PacketMuxer := {}
  demuxer : PacketDemuxer := {}

inductive LinkAction
  | muxer (action : MuxerAction)
  | demuxer (action : DemuxerAction)

/-- The name that an action looks up. -/
def LinkAction.name? : LinkAction → Option String
  | .muxer (.post _ name _) | .demuxer (.subscribe _ name) => some name
  | _ => none

/-- An action that never looks up the name of an id. -/
def LinkAction.forward : LinkAction → Bool
  | .demuxer (.destruct _) | .demuxer .destroy => false
  | _ => true

namespace Link

/-- What one side does. The bytes that the muxer's transport accepts reach the transport of
the demuxer, whenever that reads them; a process that is gone receives nothing. -/
def step (ids : IdManager) (l : Link) : LinkAction → Option Link
  | .muxer action =>
    (PacketMuxer.step ids l.muxer action).map (fun m =>
      { muxer := m
        demuxer := (PacketDemuxer.step ids l.demuxer (.arrive (m.wire.drop l.muxer.wire.length))).getD l.demuxer })
  | .demuxer (.arrive _) => none
  | .demuxer action => (PacketDemuxer.step ids l.demuxer action).map (fun d => { l with demuxer := d })

def system (ids : IdManager) : TransitionSystem Link LinkAction where
  start := {}
  step := step ids

/-- No read or write fails, and the program posts what it is allowed to. -/
def Reliable (allowed : String → PacketArgs → Prop) (l : Link) : LinkAction → Prop
  | .muxer action => PacketMuxer.NoWriteError l.muxer action ∧ PacketMuxer.Posts allowed l.muxer action
  | .demuxer (.read .error) => False
  | .demuxer _ => True

/-- What one step does to the two sides. -/
theorem step_cases {ids : IdManager} {l l' : Link} {action : LinkAction} (run : step ids l action = some l') :
    (∃ a, action = .muxer a ∧ PacketMuxer.step ids l.muxer a = some l'.muxer ∧
      l'.demuxer = (PacketDemuxer.step ids l.demuxer
        (.arrive (l'.muxer.wire.drop l.muxer.wire.length))).getD l.demuxer) ∨
    (∃ a, action = .demuxer a ∧ (∀ bytes, a ≠ .arrive bytes) ∧
      PacketDemuxer.step ids l.demuxer a = some l'.demuxer ∧ l'.muxer = l.muxer) := by
  unfold step at run
  split at run
  · obtain ⟨m, moved, rfl⟩ := Option.map_eq_some_iff.mp run
    exact Or.inl ⟨_, rfl, moved, rfl⟩
  · cases run
  · rename_i a other
    obtain ⟨d, moved, rfl⟩ := Option.map_eq_some_iff.mp run
    exact Or.inr ⟨_, rfl, other, moved, rfl⟩

/-- Each side is in a state of its own runs. -/
theorem reach_sides {allowed : String → PacketArgs → Prop} {ids : IdManager} {l : Link}
    (reach : (system ids).ReachUnder (Reliable allowed) l) :
    (PacketMuxer.system ids).ReachUnder
      (fun m action => PacketMuxer.NoWriteError m action ∧ PacketMuxer.Posts allowed m action) l.muxer ∧
    (PacketDemuxer.system ids).Reach l.demuxer := by
  induction reach with
  | start => exact ⟨.start, .start⟩
  | @next s action s' before met run ih =>
    obtain ⟨muxer, demuxer⟩ := ih
    rcases step_cases run with ⟨a, rfl, moved, arrives⟩ | ⟨a, rfl, -, moved, same⟩
    · refine ⟨.next muxer met moved, ?_⟩
      cases arrived : PacketDemuxer.step ids s.demuxer (.arrive (s'.muxer.wire.drop s.muxer.wire.length)) with
      | none => rw [arrives, arrived]; exact demuxer
      | some d => rw [arrives, arrived]; exact .next demuxer trivial arrived
    · rw [same]
      exact ⟨muxer, .next demuxer trivial moved⟩

/-- What reaches the demuxer is what the muxer has written. -/
structure StreamInv (l : Link) : Prop where
  same : l.demuxer.receive ≠ .aborted → l.demuxer.arrived = l.muxer.wire
  sub : l.demuxer.arrived <+: l.muxer.wire

theorem reach_streamInv {allowed : String → PacketArgs → Prop} {ids : IdManager} {l : Link}
    (reach : (system ids).ReachUnder (Reliable allowed) l) : StreamInv l := by
  refine reach.invariant ⟨fun _ => rfl, List.prefix_rfl⟩ ?_
  intro s action s' _ inv _ run
  rcases step_cases run with ⟨a, rfl, moved, arrives⟩ | ⟨a, rfl, other, moved, same⟩
  · obtain ⟨more, grown⟩ := (PacketMuxer.step_effect moved).wire_grows
    rw [← grown, List.drop_left] at arrives
    by_cases aborted : s.demuxer.receive = .aborted
    · have dead : s'.demuxer = s.demuxer := by simpa [PacketDemuxer.step, aborted] using arrives
      rw [← dead] at aborted
      refine ⟨fun alive => absurd aborted alive, ?_⟩
      rw [dead, ← grown]
      exact inv.sub.trans (List.prefix_append _ _)
    · have alive : s'.demuxer = { s.demuxer with
          arrived := s.demuxer.arrived ++ more, input := s.demuxer.input ++ more } := by
        rw [arrives, PacketDemuxer.arrive_eq aborted]
        rfl
      have whole : s'.demuxer.arrived = s'.muxer.wire := by rw [alive, ← grown, ← inv.same aborted]
      exact ⟨fun _ => whole, whole ▸ List.prefix_rfl⟩
  · have alive : s.demuxer.receive ≠ .aborted := fun aborted => by
      simp [PacketDemuxer.step, aborted] at moved
    have arrived : s'.demuxer.arrived = s'.muxer.wire := by
      rcases (PacketDemuxer.step_effect moved).arrived_cases with ⟨bytes, arrive, -⟩ | kept
      · exact absurd arrive (other bytes)
      · rw [kept, same, inv.same alive]
    exact ⟨fun _ => arrived, arrived ▸ List.prefix_rfl⟩

/-- Type by type, the packets handed to `sendPacket` are the first of those posted. -/
theorem sent_sub {ids : IdManager} {C : PacketMuxer → MuxerAction → Prop} {m : PacketMuxer}
    (reach : (PacketMuxer.system ids).ReachUnder C m) (type : PacketType) :
    m.sent.filter (·.type = type) <+: (postsOf type m.log).map (·.packet) := by
  obtain ⟨f, -, related⟩ := (PacketMuxer.refines_fifo ids C).reach reach
  have sub := ((PacketMuxer.reach_handInv reach).hands_sub related type).map (·.packet)
  rwa [PacketMuxer.sent, List.filter_map]

/-- The packets received are the first of those handed to `sendPacket`. -/
theorem received_sub {allowed : String → PacketArgs → Prop} {ids : IdManager} {l : Link}
    (short : ∀ name args, allowed name args → args.Short) (reach : (system ids).ReachUnder (Reliable allowed) l) :
    l.demuxer.received <+: l.muxer.sent := by
  obtain ⟨muxer, demuxer⟩ := reach_sides reach
  have read := PacketDemuxer.reach_readInv demuxer
  have wire := PacketMuxer.reach_wireInv (fun _ _ met => met.1) muxer
  have post := PacketMuxer.reach_postInv (fun _ _ met => met.2) muxer
  refine ComPacket.code.prefix_of_stream_prefix ?_ ?_ (read.sub.trans ((reach_streamInv reach).sub.trans wire.sub))
  · intro p member
    have small := (read.valid p member).2
    change p.data.length < 2 ^ 32
    omega
  · intro p member
    have posted := (sent_sub muxer p.type).subset (List.mem_filter.mpr ⟨member, by simp⟩)
    simp only [postsOf, posts, List.mem_map, List.mem_filter, List.mem_filterMap] at posted
    obtain ⟨packet, ⟨⟨event, place, same⟩, -⟩, rfl⟩ := posted
    cases event with
    | posted name q =>
      cases same
      have small := post.short short place
      change packet.packet.data.length < 2 ^ 32
      omega
    | _ => cases same

/-- What a name delivers: the packets of its type that are dispatched are the first of those
posted under it, if no other name that is posted under has the same id. -/
theorem dispatched_sub {names : List String} {ids : IdManager} (built : IdManager.ofList names = some ids)
    {allowed : String → PacketArgs → Prop} (short : ∀ name args, allowed name args → args.Short)
    {l : Link} (reach : (system ids).ReachUnder (Reliable allowed) l) {name : String} {type : PacketType}
    (issued : ids.toId name = some type)
    (single : ∀ other args, allowed other args → ids.toId other = some type → other = name) :
    ((dispatches l.demuxer.log).filter (·.packet.type = type)).map (·.packet) <+:
      (postedUnder name l.muxer.log).map (·.packet) := by
  obtain ⟨muxer, demuxer⟩ := reach_sides reach
  by_cases user : type = IdManager.controlPacket
  · rw [user, PacketDemuxer.dispatches_control built demuxer]
    exact List.nil_prefix
  · have post := PacketMuxer.reach_postInv (fun _ _ met => met.2) muxer
    have dispatched := PacketDemuxer.dispatches_sub built demuxer type
    have received := (received_sub short reach).filter (fun p => decide (p.type = type))
    have sent := sent_sub muxer type
    rw [post.postsOf_eq (IdManager.toId_controlString built) issued single user] at sent
    exact (dispatched.trans received).trans sent

/-- End to end: what the callback of a subscriber is given, from a subscription before the first
dispatch on, are the first of the payloads posted under its name. -/
theorem delivery (names : List String) (few : names.length ≤ 2 ^ 32) (ids : IdManager)
    (built : IdManager.ofList names = some ids) (l : Link)
    (reach : (system ids).ReachUnder (Reliable (ShortPost names)) l)
    (name : String) (listed : name ∈ names) (s : PacketSubscriber) (typed : ids.toId name = some s.type)
    (standing : Standing s l.demuxer.log) :
    (callsOf s l.demuxer.log).map (·.packet.data) <+: (postedUnder name l.muxer.log).map (·.packet.data) := by
  have single : ∀ other args, ShortPost names other args → ids.toId other = some s.type → other = name := by
    intro other args may same
    exact IdManager.toId_injective built few may.1 listed (same.trans typed.symm)
  have packets := dispatched_sub built (fun _ _ may => may.2) reach typed single
  rw [PacketDemuxer.callsOf_standing built (reach_sides reach).2 standing]
  have payloads := packets.map (·.data)
  rwa [List.map_map, List.map_map] at payloads

/-- A packet is posted under a name with the id 2 and sent after the Hello message. -/
def sendsUnder (name : String) : List MuxerAction :=
  [.post 0 name (.moved [7]), .user 0 true, .user 0 true, .user 0 true, .user 0 true] ++
  List.replicate 9 .send ++ [.iterate [1, 2], .send, .send] ++
  [.write (.count 4), .send, .write (.count 4), .send, .write (.count 1), .send, .send, .send, .send] ++
  [.send, .send, .send, .write (.count 4), .send, .write (.count 4), .send, .write (.count 1)]

/-- Both packets are received. -/
def receivesBoth : List DemuxerAction :=
  PacketDemuxer.frameActions ControlMessage.hello.packet ++ [.receive, .receive] ++
  PacketDemuxer.frameActions ⟨2, [7]⟩ ++ [.receive]

/-- A subscriber of "A", and a post under `name`. -/
def postAndReceive (name : String) : List LinkAction :=
  .demuxer (.subscribe 0 "A") :: ((sendsUnder name).map .muxer ++ receivesBoth.map .demuxer)

theorem postAndReceive_reliable (names : List String) (name : String) (listed : name ∈ names) :
    ∀ action ∈ postAndReceive name, ∀ l, Reliable (ShortPost names) l action := by
  intro action member l
  simp only [postAndReceive, List.mem_cons, List.mem_append, List.mem_map] at member
  rcases member with rfl | ⟨a, member, rfl⟩ | ⟨a, member, rfl⟩
  · trivial
  · cases a with
    | post i other args =>
      simp [sendsUnder] at member
      obtain ⟨-, rfl, rfl⟩ := member
      refine ⟨trivial, listed, fun type packet built => ?_⟩
      cases Option.some.inj built
      exact (by decide : [(7 : Byte)].length < 2 ^ 31)
    | write answer =>
      cases answer with
      | error => simp [sendsUnder] at member
      | count n => exact ⟨trivial, trivial⟩
    | _ => exact ⟨trivial, trivial⟩
  · cases a with
    | read answer =>
      cases answer with
      | error =>
        simp [receivesBoth, PacketDemuxer.frameActions, PacketDemuxer.readActions, ControlMessage.packet] at member
      | count n => trivial
    | _ => trivial

theorem delivery_one : ∃ (ids : IdManager) (l : Link), IdManager.ofList ["A"] = some ids ∧
    l.demuxer.log = [.subscribed ⟨0, 2⟩, .greeted ControlMessage.hello.packet, .dispatched ⟨1, 2, [7]⟩ [⟨0, 2⟩]] ∧
    (callsOf ⟨0, 2⟩ l.demuxer.log).map (·.packet.data) <+:
      (postedUnder "A" l.muxer.log).map (·.packet.data) := by
  obtain ⟨ids, built, l, reach, log⟩ : ∃ ids, IdManager.ofList ["A"] = some ids ∧
      ∃ l, (system ids).ReachUnder (Reliable (ShortPost ["A"])) l ∧
        (fun l : Link => l.demuxer.log) l =
          [.subscribed ⟨0, 2⟩, .greeted ControlMessage.hello.packet, .dispatched ⟨1, 2, [7]⟩ [⟨0, 2⟩]] :=
    ⟨_, rfl, TransitionSystem.ReachUnder.start.computed _ (postAndReceive "A")
      (postAndReceive_reliable _ "A" List.mem_cons_self) (by decide)⟩
  dsimp only at log
  have typed : ids.toId "A" = some 2 := IdManager.toId_getElem built (i := 0) (by decide)
  exact ⟨ids, l, built, log, delivery ["A"] (by decide) ids built l reach "A" (by decide) ⟨0, 2⟩ typed
    ⟨⟨[], _, log, rfl⟩, by rw [log]; decide⟩⟩

/-- Where two managers agree on the names that are looked up, they cannot be told apart. -/
theorem step_congr {ids ids' : IdManager}
    (control : ids.toId IdManager.controlString = ids'.toId IdManager.controlString)
    {action : LinkAction} (named : ∀ name, action.name? = some name → ids.toId name = ids'.toId name)
    (forward : action.forward = true) (l : Link) : step ids l action = step ids' l action := by
  cases action with
  | muxer a =>
    have same : PacketMuxer.step ids l.muxer a = PacketMuxer.step ids' l.muxer a := by
      unfold PacketMuxer.step
      cases a with
      | post i name args => cases l.muxer.send <;> simp only [named name rfl]
      | send => cases l.muxer.send <;> simp only [PacketMuxer.sendStep, control]
      | _ => cases l.muxer.send <;> rfl
    have arrive : ∀ bytes,
        PacketDemuxer.step ids l.demuxer (.arrive bytes) = PacketDemuxer.step ids' l.demuxer (.arrive bytes) := by
      intro bytes
      unfold PacketDemuxer.step
      cases l.demuxer.receive <;> rfl
    simp only [step, same, arrive]
  | demuxer a =>
    have same : PacketDemuxer.step ids l.demuxer a = PacketDemuxer.step ids' l.demuxer a := by
      unfold PacketDemuxer.step
      cases a with
      | subscribe i name => cases l.demuxer.receive <;> simp only [PacketDemuxer.subscribe, named name rfl]
      | destruct | destroy => cases forward
      | read answer => cases answer <;> cases l.demuxer.receive <;> rfl
      | _ => cases l.demuxer.receive <;> rfl
    cases a <;> simp only [step, same]

theorem run_congr {ids ids' : IdManager}
    (control : ids.toId IdManager.controlString = ids'.toId IdManager.controlString)
    {actions : List LinkAction}
    (named : ∀ action ∈ actions, ∀ name, action.name? = some name → ids.toId name = ids'.toId name)
    (forward : ∀ action ∈ actions, action.forward = true) (l : Link) :
    (system ids).run l actions = (system ids').run l actions := by
  induction actions generalizing l with
  | nil => rfl
  | cons action actions ih =>
    have first := step_congr control (named action List.mem_cons_self) (forward action List.mem_cons_self) l
    simp only [TransitionSystem.run, system] at *
    rw [first]
    refine Option.bind_congr (fun next _ => ?_)
    exact ih (fun a member => named a (List.mem_cons_of_mem _ member))
      (fun a member => forward a (List.mem_cons_of_mem _ member)) next

/-- A name of its own for every number. -/
def fillerName (i : Nat) : String := String.ofList (List.replicate (i + 12) 'x')

theorem fillerName_length (i : Nat) : (fillerName i).length = i + 12 := by
  simp [fillerName]

/-- Two names of which the second gets the id of the first, if the names in between use up
all the others. -/
def wrappingNames (n : Nat) : List String := "A" :: ((List.range n).map fillerName ++ ["B"])

theorem wrappingNames_length (n : Nat) : (wrappingNames n).length = n + 2 := by
  simp [wrappingNames]

theorem wrappingNames_nodup (n : Nat) :
    (IdManager.invalidString :: IdManager.controlString :: wrappingNames n).Nodup := by
  have short : ∀ name : String, name.length < 12 → name ∉ (List.range n).map fillerName := by
    intro name short member
    obtain ⟨i, -, rfl⟩ := List.mem_map.mp member
    rw [fillerName_length] at short
    omega
  have fillers : ((List.range n).map fillerName).Nodup := by
    refine List.Nodup.map (fun i j same => ?_) List.nodup_range
    have lengths := congrArg String.length same
    rw [fillerName_length, fillerName_length] at lengths
    omega
  have last : ((List.range n).map fillerName ++ ["B"]).Nodup :=
    fillers.append (List.nodup_singleton _) (List.disjoint_singleton.mpr (short "B" (by decide)))
  simp only [wrappingNames, List.nodup_cons, List.mem_cons, List.mem_append, List.not_mem_nil, or_false, not_or]
  exact ⟨⟨by decide, by decide, short _ (by decide), by decide⟩, ⟨by decide, short _ (by decide), by decide⟩,
    ⟨short _ (by decide), by decide⟩, last⟩

/-- The ids that are looked up in `postAndReceive "B"`. -/
def wrappedIds : IdManager where
  map name :=
    if name = "A" ∨ name = "B" then some 2
    else if name = IdManager.controlString then some IdManager.controlPacket
    else none
  reverse := []

theorem toId_first {n : Nat} {ids : IdManager} (built : IdManager.ofList (wrappingNames n) = some ids) :
    ids.toId "A" = some 2 :=
  IdManager.toId_getElem built (i := 0) (by simp [wrappingNames])

theorem toId_last {n : Nat} {ids : IdManager} (built : IdManager.ofList (wrappingNames n) = some ids) :
    ids.toId "B" = some (UInt32.ofNat (n + 3)) := by
  have bound : n + 1 < (wrappingNames n).length := by rw [wrappingNames_length]; omega
  have entry : (wrappingNames n)[n + 1] = "B" := by simp [wrappingNames]
  have issued := IdManager.toId_getElem built bound
  rwa [entry] at issued

/-- With `2 ^ 32 + 1` names, the first and the last have the same id, and a payload
posted under the last is given to a subscriber of the first. -/
theorem delivery_fails : ¬ ∀ (names : List String) (ids : IdManager), IdManager.ofList names = some ids →
    ∀ l, (system ids).ReachUnder (Reliable (ShortPost names)) l → ∀ name, name ∈ names →
    ∀ s : PacketSubscriber, ids.toId name = some s.type → Standing s l.demuxer.log →
    (callsOf s l.demuxer.log).map (·.packet.data) <+:
      (postedUnder name l.muxer.log).map (·.packet.data) := by
  intro always
  obtain ⟨n, size⟩ : ∃ n, n = 2 ^ 32 - 1 := ⟨_, rfl⟩
  obtain ⟨ids, built⟩ := IdManager.ofList_exists (wrappingNames_nodup n)
  have first := toId_first built
  have last : ids.toId "B" = some 2 := by
    rw [toId_last built, size]
    rfl
  have named :
      ∀ action ∈ postAndReceive "B", ∀ name, action.name? = some name → ids.toId name = wrappedIds.toId name := by
    intro action member name looked
    have names : (postAndReceive "B").filterMap LinkAction.name? = ["A", "B"] := rfl
    have there := List.mem_filterMap.mpr ⟨action, member, looked⟩
    rw [names, List.mem_cons, List.mem_singleton] at there
    rcases there with rfl | rfl
    · exact first
    · exact last
  have run := run_congr (IdManager.toId_controlString built) named (List.all_eq_true.mp (by decide)) {}
  obtain ⟨l, reach, seen⟩ := TransitionSystem.ReachUnder.start.computed
    (fun l : Link => (l.demuxer.log, postedUnder "A" l.muxer.log)) (postAndReceive "B")
    (postAndReceive_reliable (wrappingNames n) "B" (by simp [wrappingNames]))
    (r := ([.subscribed ⟨0, 2⟩, .greeted ControlMessage.hello.packet, .dispatched ⟨1, 2, [7]⟩ [⟨0, 2⟩]], []))
    (by change ((system ids).run {} (postAndReceive "B")).map _ = _; rw [run]; decide)
  obtain ⟨log, posted⟩ := Prod.mk.inj seen
  have sub := always (wrappingNames n) ids built l reach "A" (by simp [wrappingNames]) ⟨0, 2⟩ first
    ⟨⟨[], _, log, rfl⟩, by rw [log]; decide⟩
  rw [log, posted] at sub
  exact absurd (List.prefix_nil.mp sub) (by decide)

end Link

end PacketComms
