import PacketComms.Muxer.Writing

namespace PacketComms

/-- Whatever type the packet gets, its payload has less than `2 ^ 31` bytes. -/
def PacketArgs.Short (args : PacketArgs) : Prop :=
  ∀ type packet, ComPacket.make type args = some packet → packet.data.length < 2 ^ 31

theorem ControlMessage.short (msg : ControlMessage) : msg.args.Short := by
  intro type packet built
  cases Option.some.inj built
  exact Nat.lt_of_le_of_lt (List.length_take_le ..) (by decide)

/-- A name of the list and a short payload. -/
def ShortPost (names : List String) (name : String) (args : PacketArgs) : Prop :=
  name ∈ names ∧ args.Short

/-- A post of the program, where `allowed` says what it posts. -/
def UserPost (allowed : String → PacketArgs → Prop) (ids : IdManager)
    (name : String) (type : PacketType) (args : PacketArgs) : Prop :=
  allowed name args ∧ ids.toId name = some type

/-- A post of the send thread. -/
def ControlPost (ids : IdManager) (name : String) (type : PacketType) (args : PacketArgs) : Prop :=
  name = IdManager.controlString ∧ ids.toId name = some type ∧ ∃ msg : ControlMessage, args = msg.args

/-- What a call of `emplacePacket` is about, as long as that matters. -/
def PostPc.Meets (P : String → PacketType → PacketArgs → Prop) : PostPc → Prop
  | .locking name type args | .emplacing name type args => P name type args
  | _ => True

/-- The same of the calls that the send thread makes. -/
def SendPc.Meets (P : String → PacketType → PacketArgs → Prop) : SendPc → Prop
  | .hello pc | .heartBeat pc => pc.Meets P
  | _ => True

/-- The packets posted under a name, in order. -/
def postedUnder (name : String) (log : List MuxerEvent) : List SharedPacket :=
  log.filterMap fun
    | .posted other packet => if other = name then some packet else none
    | _ => none

section Histories

variable (name : String) (log : List MuxerEvent) (packet : SharedPacket)

@[simp] theorem postedUnder_posted (other : String) : postedUnder name (log ++ [.posted other packet]) =
    postedUnder name log ++ (if other = name then [packet] else []) := by
  by_cases same : other = name <;> simp [postedUnder, same]

@[simp] theorem postedUnder_handed : postedUnder name (log ++ [.handed packet]) = postedUnder name log := by
  simp [postedUnder]

@[simp] theorem postedUnder_popped : postedUnder name (log ++ [.popped packet]) = postedUnder name log := by
  simp [postedUnder]

theorem mem_postedUnder : packet ∈ postedUnder name log ↔ .posted name packet ∈ log := by
  simp only [postedUnder, List.mem_filterMap]
  constructor
  · rintro ⟨event, member, same⟩
    cases event with
    | posted other p =>
      by_cases own : other = name
      · subst own
        have here : p = packet := by simpa using same
        exact here ▸ member
      · simp [own] at same
    | handed | popped => simp at same
  · intro member
    exact ⟨_, member, by simp⟩

end Histories

namespace PacketMuxer

/-- The program posts what it is allowed to. -/
def Posts (allowed : String → PacketArgs → Prop) (_ : PacketMuxer) : MuxerAction → Prop
  | .post _ name args => allowed name args
  | _ => True

/-- Every packet comes from a post of the program or of the send thread, and has the id
of its name. -/
structure PostInv (allowed : String → PacketArgs → Prop) (ids : IdManager) (m : PacketMuxer) : Prop where
  users : ∀ i, (m.users i).Meets (UserPost allowed ids)
  send : m.send.Meets (ControlPost ids)
  posted : ∀ name packet, .posted name packet ∈ m.log → ∃ args,
    (UserPost allowed ids name packet.packet.type args ∨ ControlPost ids name packet.packet.type args) ∧
    ComPacket.make packet.packet.type args = some packet.packet

/-- A step of `emplacePacket`: the call goes on, and what it posts is what it is about. -/
theorem Emplaced.postInv {m m' : PacketMuxer} {t : MuxerThread} {alloc : Bool} {pc pc' : PostPc}
    {P : String → PacketType → PacketArgs → Prop} (step : Emplaced m t alloc pc pc' m') (about : pc.Meets P) :
    pc'.Meets P ∧ ∀ name packet, .posted name packet ∈ m'.log → .posted name packet ∈ m.log ∨
      ∃ args, P name packet.packet.type args ∧ ComPacket.make packet.packet.type args = some packet.packet := by
  cases step with
  | locked => exact ⟨about, fun _ _ old => Or.inl old⟩
  | threw | unlocked => exact ⟨trivial, fun _ _ old => Or.inl old⟩
  | signalled => exact ⟨trivial, fun _ _ old => Or.inl (by simpa [signalPacketPosted] using old)⟩
  | @emplaced name type args packet _ built =>
    refine ⟨trivial, fun other p member => ?_⟩
    rcases List.mem_append.mp member with old | new
    · exact Or.inl old
    · cases List.mem_singleton.mp new
      have typed := ComPacket.make_type built
      subst typed
      exact Or.inr ⟨args, about, built⟩

theorem Effect.postInv {allowed : String → PacketArgs → Prop} {ids : IdManager} {m m' : PacketMuxer}
    {action : MuxerAction} (inv : PostInv allowed ids m) (met : Posts allowed m action)
    (effect : Effect ids m action m') : PostInv allowed ids m' := by
  cases effect with
  | threw => exact inv
  | @called i name type args idle issued =>
    refine ⟨fun j => ?_, inv.send, inv.posted⟩
    by_cases same : j = i
    · subst same
      simp only [Function.update_self]
      exact ⟨met, issued⟩
    · simp only [Function.update_of_ne same]
      exact inv.users j
  | @user i alloc pc next step =>
    obtain ⟨about, posted⟩ := step.postInv (inv.users i)
    obtain ⟨-, users, -⟩ := step.lock
    refine ⟨fun j => ?_, ?_, fun name packet member => ?_⟩
    · by_cases same : j = i
      · subst same
        simpa only [Function.update_self] using about
      · simp only [Function.update_of_ne same, users]
        exact inv.users j
    · have same := step.send.congr (·.Meets (ControlPost ids)) (fun _ => rfl)
      exact same ▸ inv.send
    · rcases posted name packet member with old | ⟨args, user, built⟩
      · exact inv.posted name packet old
      · exact ⟨args, Or.inl user, built⟩
  | hello at_pc step | heartBeat at_pc step =>
    have send := inv.send
    rw [at_pc] at send
    obtain ⟨about, posted⟩ := step.postInv send
    obtain ⟨-, users, -⟩ := step.lock
    refine ⟨fun j => by simpa only [users] using inv.users j, about, fun name packet member => ?_⟩
    rcases posted name packet member with old | ⟨args, control, built⟩
    · exact inv.posted name packet old
    · exact ⟨args, Or.inr control, built⟩
  | entered at_pc control => exact ⟨inv.users, ⟨rfl, control, .hello, rfl⟩, inv.posted⟩
  | timedOut at_pc _ control => exact ⟨inv.users, ⟨rfl, control, .heartBeat, rfl⟩, inv.posted⟩
  | destroyStored =>
    have same := m.stored_send.congr (·.Meets (ControlPost ids)) (fun _ => rfl)
    exact ⟨by simpa using inv.users, same ▸ inv.send, by simpa using inv.posted⟩
  | handed | popped | asserted =>
    exact ⟨inv.users, trivial, fun name packet member => inv.posted name packet (by simpa using member)⟩
  | destroy | destroyLocked | destroyUnlocked | destroyJoined => exact ⟨inv.users, inv.send, inv.posted⟩
  | _ => exact ⟨inv.users, trivial, inv.posted⟩

theorem reach_postInv {allowed : String → PacketArgs → Prop} {ids : IdManager}
    {C : PacketMuxer → MuxerAction → Prop} (posts : ∀ m action, C m action → Posts allowed m action)
    {m : PacketMuxer} (reach : (system ids).ReachUnder C m) : PostInv allowed ids m := by
  refine reach.invariant ⟨fun _ => trivial, trivial, ?_⟩ ?_
  · intro name packet none
    simp [system] at none
  · exact fun _ inv met run => (step_effect run).postInv inv (posts _ _ met)

/-- Where the program posts only short payloads, no size field wraps. -/
theorem PostInv.short {allowed : String → PacketArgs → Prop} {ids : IdManager} {m : PacketMuxer}
    (inv : PostInv allowed ids m) (short : ∀ name args, allowed name args → args.Short)
    {name : String} {packet : SharedPacket} (member : .posted name packet ∈ m.log) :
    packet.packet.data.length < 2 ^ 31 := by
  obtain ⟨args, origin, built⟩ := inv.posted name packet member
  rcases origin with ⟨user, -⟩ | ⟨-, -, msg, rfl⟩
  · exact short name args user _ _ built
  · exact msg.short _ _ built

/-- A name that does not share its id with another one that is posted under has the packets of
its type to itself. -/
theorem PostInv.postsOf_eq {allowed : String → PacketArgs → Prop} {ids : IdManager} {m : PacketMuxer}
    (inv : PostInv allowed ids m) (control : ids.toId IdManager.controlString = some IdManager.controlPacket)
    {name : String} {type : PacketType} (issued : ids.toId name = some type)
    (single : ∀ other args, allowed other args → ids.toId other = some type → other = name)
    (user : type ≠ IdManager.controlPacket) : postsOf type m.log = postedUnder name m.log := by
  have own : ∀ other packet, .posted other packet ∈ m.log → (packet.packet.type = type ↔ other = name) := by
    intro other packet member
    obtain ⟨args, origin, -⟩ := inv.posted other packet member
    constructor
    · rintro rfl
      rcases origin with ⟨may, id⟩ | ⟨rfl, id, -⟩
      · exact single other args may id
      · exact absurd (Option.some.inj (id.symm.trans control)) user
    · rintro rfl
      rcases origin with ⟨-, id⟩ | ⟨-, id, -⟩
      · exact Option.some.inj (id.symm.trans issued)
      · exact Option.some.inj (id.symm.trans issued)
  have filtered : ∀ log : List MuxerEvent, (∀ event ∈ log, event ∈ m.log) →
      postsOf type log = postedUnder name log := by
    intro log
    induction log with
    | nil => exact fun _ => rfl
    | cons event log ih =>
      intro within
      have rest := ih (fun e member => within e (List.mem_cons_of_mem _ member))
      have first := within event List.mem_cons_self
      unfold postsOf postedUnder posts at *
      cases event with
      | posted other packet =>
        by_cases same : other = name <;>
          simp [MuxerEvent.post?, rest, same, own other packet first]
      | handed | popped => simpa [List.filterMap_cons, MuxerEvent.post?] using rest
  exact filtered m.log (fun _ member => member)

end PacketMuxer

end PacketComms
