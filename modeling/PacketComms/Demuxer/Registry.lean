import PacketComms.Demuxer.Delivery
import PacketComms.Demuxer.FrameRun
import PacketComms.Demuxer.Ownership
import Mathlib.Data.List.Perm.Subperm

namespace PacketComms

/-- The names determine how many ids there are. -/
theorem IdManager.length_le_of_issued {names : List String} {ids : IdManager}
    (built : IdManager.ofList names = some ids)
    {types : List PacketType} (distinct : types.Nodup) (issued : ∀ type ∈ types, ∃ name, ids.toId name = some type) :
    types.length ≤ ids.reverse.length := by
  obtain ⟨aligned, -⟩ := ofList_aligned built
  have within : types ⊆ ids.reverse.filterMap ids.toId := by
    intro type member
    obtain ⟨name, id⟩ := issued type member
    exact List.mem_filterMap.mpr ⟨name, aligned.toId_isSome.mp (by rw [id]; rfl), id⟩
  calc types.length
      ≤ (ids.reverse.filterMap ids.toId).length := (List.subperm_of_subset distinct within).length_le
    _ ≤ ids.reverse.length := List.length_filterMap_le _ _

/-- A subscriber for the type was ever created. -/
def EverSubscribed (log : List DemuxerEvent) (type : PacketType) : Prop := ∃ s, .subscribed s ∈ log ∧ s.type = type

theorem everSubscribed_iff {log : List DemuxerEvent} {type : PacketType} :
    log.any (fun event => event.subscribed?.any (·.type = type)) = true ↔ EverSubscribed log type := by
  simp only [EverSubscribed, List.any_eq_true, Option.any_eq_true, decide_eq_true_eq]
  constructor
  · rintro ⟨event, member, s, subscribed, typed⟩
    cases event with
    | subscribed t => cases subscribed; exact ⟨s, member, typed⟩
    | _ => cases subscribed
  · rintro ⟨s, member, typed⟩
    exact ⟨_, member, s, rfl, typed⟩

instance (log : List DemuxerEvent) (type : PacketType) : Decidable (EverSubscribed log type) :=
  decidable_of_iff _ everSubscribed_iff

theorem EverSubscribed.mono {log more : List DemuxerEvent} {type : PacketType} (before : EverSubscribed log type)
    (sub : log <+: more) : EverSubscribed more type := by
  obtain ⟨s, member, typed⟩ := before
  exact ⟨s, sub.subset member, typed⟩

namespace PacketDemuxer

/-- The step dispatches no packet but one of a type for which a subscriber was created before. -/
def DispatchesKnown (d : PacketDemuxer) (action : DemuxerAction) : Prop :=
  action = .receive → ∀ packet, d.receive = .dispatch packet →
    packet.type = IdManager.controlPacket ∨ EverSubscribed d.log packet.type

def dispatchesKnown (d : PacketDemuxer) : DemuxerAction → Bool
  | .receive =>
    match d.receive with
    | .dispatch packet => packet.type = IdManager.controlPacket ∨ EverSubscribed d.log packet.type
    | _ => true
  | _ => true

theorem dispatchesKnown_iff {d : PacketDemuxer} {action : DemuxerAction} :
    d.dispatchesKnown action = true ↔ DispatchesKnown d action := by
  cases action with
  | receive => cases at_pc : d.receive <;> simp [dispatchesKnown, DispatchesKnown, at_pc]
  | _ => simp [dispatchesKnown, DispatchesKnown]

instance (d : PacketDemuxer) (action : DemuxerAction) : Decidable (DispatchesKnown d action) :=
  decidable_of_iff _ dispatchesKnown_iff

/-- The receive thread leaves `m_subscribers` as it is, and everything but `subscribe` its keys. -/
def KeepsRegistry (d : PacketDemuxer) (action : DemuxerAction) (d' : PacketDemuxer) : Prop :=
  (action = .receive → d'.subscribers = d.subscribers) ∧
  ((∀ i name, action ≠ .subscribe i name) → d'.subscribers.keys = d.subscribers.keys)

/-- The keys are the types for which a subscriber was created. -/
structure RegistryInv (ids : IdManager) (d : PacketDemuxer) : Prop where
  known : ∀ type ∈ d.subscribers.keys, EverSubscribed d.log type
  present : d.destructor ≠ .returned → ∀ s, .subscribed s ∈ d.log → s.type ∈ d.subscribers.keys
  issued : ∀ s, .subscribed s ∈ d.log → ∃ name, ids.toId name = some s.type

/-- A step that creates no subscriber and adds no key. -/
theorem RegistryInv.quiet {ids : IdManager} {d d' : PacketDemuxer} (inv : RegistryInv ids d) (log : d.log <+: d'.log)
    (events : ∀ s, .subscribed s ∈ d'.log → .subscribed s ∈ d.log) (keys : d'.subscribers.keys = d.subscribers.keys)
    (destructor : d'.destructor ≠ .returned → d.destructor ≠ .returned) : RegistryInv ids d' := by
  refine ⟨?_, ?_, fun s member => inv.issued s (events s member)⟩
  · rw [keys]
    exact fun type member => (inv.known type member).mono log
  · rw [keys]
    exact fun alive s member => inv.present (destructor alive) s (events s member)

/-- The destructor of a handle keeps the keys. -/
theorem OwnInv.destruct_keys {names : List String} {ids : IdManager} (built : IdManager.ofList names = some ids)
    {d : PacketDemuxer} (inv : OwnInv ids d) {i : Nat} {s : PacketSubscriber} (handle : d.handles i = some (some s)) :
    (if d.useCount s.addr > 1 then d.unsubscribe ids s else d).subscribers.keys = d.subscribers.keys := by
  have held := holds_eq_some.mpr handle
  split
  · rename_i shared
    have alive : d.destructor ≠ .returned := by
      intro gone
      rw [inv.counts i s held, if_pos gone] at shared
      omega
    have member := inv.registered alive i s held
    rw [inv.unsubscribe built held alive, KeyedLists.keys_set,
      KeyedLists.touch_of_mem (KeyedLists.mem_keys_of_mem member)]
  · rfl

theorem Effect.registryInv {names : List String} {ids : IdManager} (built : IdManager.ofList names = some ids)
    {d d' : PacketDemuxer} {action : DemuxerAction} (own : OwnInv ids d) (known : DispatchesKnown d action)
    (gone : d.destructor = .returned → d.receive = .exited) (inv : RegistryInv ids d)
    (effect : Effect ids d action d') : RegistryInv ids d' := by
  have grows := effect.log_grows
  cases effect with
  | @subscribed i name type empty alive id =>
    refine ⟨?_, ?_, ?_⟩
    · intro other member
      rcases KeyedLists.mem_of_mem_keys_touch member with old | rfl
      · exact (inv.known other old).mono grows
      · exact ⟨⟨d.nextAddr, other⟩, by simp, rfl⟩
    · intro _ s member
      rcases List.mem_append.mp member with old | new
      · exact KeyedLists.keys_sub_touch (inv.present alive s old)
      · cases List.mem_singleton.mp new
        exact d.subscribers.mem_keys_touch type
    · intro s member
      rcases List.mem_append.mp member with old | new
      · exact inv.issued s old
      · cases List.mem_singleton.mp new
        exact ⟨name, id⟩
  | @dispatched packet at_pc user =>
    have alive : d.destructor ≠ .returned := by
      intro dead
      have exited := gone dead
      rw [at_pc] at exited
      cases exited
    obtain ⟨s, member, typed⟩ := (known rfl packet at_pc).resolve_left user
    have key : packet.type ∈ d.subscribers.keys := typed ▸ inv.present alive s member
    refine inv.quiet grows (by simp) ?_ id
    simp only [KeyedLists.touch_of_mem key]
  | greeted | rejected | handled => exact inv.quiet grows (by simp) rfl id
  | @destructed i s next handle same =>
    subst same
    refine inv.quiet grows ?_ (own.destruct_keys built handle) ?_
    · intro t member
      simp only [List.mem_append, List.mem_singleton, reduceCtorEq, or_false] at member
      split at member
      · rcases d.unsubscribe_log ids s with log | log <;> simpa [log] using member
      · exact member
    · split <;> simp
  | joined => exact ⟨nofun, fun alive => absurd rfl alive, inv.issued⟩
  | destroys at_pc | warned at_pc => exact inv.quiet grows (fun _ member => member) rfl (fun _ => by simp [at_pc])
  | _ => exact inv.quiet grows (fun _ member => member) rfl id

theorem reach_registryInv {names : List String} {ids : IdManager} (built : IdManager.ofList names = some ids)
    {d : PacketDemuxer} (reach : (system ids).ReachUnder DispatchesKnown d) : RegistryInv ids d := by
  refine reach.invariant ⟨nofun, fun _ => nofun, nofun⟩ ?_
  exact fun before inv known run =>
    (step_effect run).registryInv built (reach_ownInv built before) known (reach_gone before) inv

/-- One step keeps the registry exactly if it dispatches no packet of a type that nobody has subscribed to. -/
theorem Effect.keeps_iff {names : List String} {ids : IdManager} (built : IdManager.ofList names = some ids)
    {d d' : PacketDemuxer} {action : DemuxerAction} (own : OwnInv ids d) (inv : RegistryInv ids d)
    (alive : d'.destructor ≠ .returned)
    (effect : Effect ids d action d') : KeepsRegistry d action d' ↔ DispatchesKnown d action := by
  cases effect with
  | @dispatched packet at_pc user =>
    constructor
    · rintro ⟨same, -⟩ - other at_pc'
      cases at_pc.symm.trans at_pc'
      exact Or.inr (inv.known _ (KeyedLists.mem_of_touch_eq (same rfl)))
    · intro known
      obtain ⟨s, member, typed⟩ := (known rfl packet at_pc).resolve_left user
      have key : packet.type ∈ d.subscribers.keys := typed ▸ inv.present alive s member
      have same : d.subscribers.touch packet.type = d.subscribers := KeyedLists.touch_of_mem key
      exact ⟨fun _ => same, fun _ => congrArg KeyedLists.keys same⟩
  | handled at_pc control =>
    refine iff_of_true ⟨fun _ => rfl, fun _ => rfl⟩ (fun _ packet at_pc' => Or.inl ?_)
    cases at_pc.symm.trans at_pc'
    exact control
  | joined => exact absurd rfl alive
  | @destructed i s next handle same =>
    subst same
    exact iff_of_true ⟨nofun, fun _ => own.destruct_keys built handle⟩ nofun
  | unknown | subscribed => exact iff_of_true ⟨nofun, fun other => absurd rfl (other _ _)⟩ nofun
  | reads at_pc | leaves at_pc | refused at_pc | typed at_pc | threw at_pc | sized at_pc | asserted at_pc
  | received at_pc | greeted at_pc | rejected at_pc | crashed at_pc | continues at_pc | exits at_pc =>
    exact iff_of_true ⟨fun _ => rfl, fun _ => rfl⟩ (fun _ packet at_pc' => by rw [at_pc] at at_pc'; cases at_pc')
  | _ => exact iff_of_true ⟨nofun, fun _ => rfl⟩ nofun

/-- Over runs that dispatch only packets of types somebody has subscribed to: the registry has ids of names for its
keys, no more than there are names; and a further step keeps it exactly if it dispatches no packet of another type. -/
theorem registry_iff (names : List String) (ids : IdManager) (built : IdManager.ofList names = some ids)
    (d : PacketDemuxer) (reach : (system ids).ReachUnder DispatchesKnown d) :
    (∀ type ∈ d.subscribers.keys, ∃ name, ids.toId name = some type) ∧
    d.subscribers.keys.length ≤ ids.reverse.length ∧
    ∀ action d', step ids d action = some d' → d'.destructor ≠ .returned →
      (KeepsRegistry d action d' ↔ DispatchesKnown d action) := by
  have inv := reach_registryInv built reach
  have issued : ∀ type ∈ d.subscribers.keys, ∃ name, ids.toId name = some type := by
    intro type member
    obtain ⟨s, created, rfl⟩ := inv.known type member
    exact inv.issued s created
  refine ⟨issued, IdManager.length_le_of_issued built d.subscribers.nodup issued, fun action d' run alive => ?_⟩
  exact (step_effect run).keeps_iff built (reach_ownInv built reach) inv alive

/-- The handshake, and then a packet of a type that has no name. -/
def receiveUnknown : List DemuxerAction :=
  .arrive (ControlMessage.hello.packet.frame ++ (⟨77, []⟩ : ComPacket).frame) ::
  (frameActions ControlMessage.hello.packet ++ [.receive, .receive] ++ frameActions ⟨77, []⟩ ++ [.receive])

theorem registry_fails : ¬ ∀ (names : List String) (ids : IdManager) (d : PacketDemuxer),
    IdManager.ofList names = some ids → (system ids).Reach d →
    (∀ type ∈ d.subscribers.keys, ∃ name, ids.toId name = some type) ∧
    d.subscribers.keys.length ≤ ids.reverse.length ∧
    ∀ action d', step ids d action = some d' → d'.destructor ≠ .returned → KeepsRegistry d action d' := by
  intro all
  obtain ⟨ids, built⟩ : ∃ ids, IdManager.ofList [] = some ids := IdManager.ofList_exists (by decide)
  have initial : (system ids).Reach {} := .start
  obtain ⟨d, reach, keys⟩ := initial.computed (fun d : PacketDemuxer => d.subscribers.keys) receiveUnknown
    (fun _ _ _ => trivial) (r := [77]) rfl
  obtain ⟨issued, -⟩ := all [] ids d built reach
  obtain ⟨name, id⟩ := issued 77 (by rw [keys]; exact List.mem_singleton_self 77)
  have named := IdManager.toString_isSome built id
  obtain ⟨-, two⟩ := IdManager.ofList_aligned built
  rw [IdManager.toString, two] at named
  cases named

/-- Two subscribers of "A", the handshake, and a packet for both. -/
def receiveSubscribed : List DemuxerAction :=
  [.subscribe 0 "A", .subscribe 1 "A"] ++
  .arrive (ControlMessage.hello.packet.frame ++ (⟨2, [7]⟩ : ComPacket).frame) ::
  (frameActions ControlMessage.hello.packet ++ [.receive, .receive] ++ frameActions ⟨2, [7]⟩ ++ [.receive])

theorem registry_iff_subscribed : ∃ (ids : IdManager) (d : PacketDemuxer), IdManager.ofList ["A"] = some ids ∧
    (d.subscribers.keys, invocations d.log) = ([2], [(⟨0, 2⟩, ⟨2, 2, [7]⟩), (⟨1, 2⟩, ⟨2, 2, [7]⟩)]) ∧
    (∀ type ∈ d.subscribers.keys, ∃ name, ids.toId name = some type) ∧
    d.subscribers.keys.length ≤ ids.reverse.length ∧
    ∀ action d', step ids d action = some d' → d'.destructor ≠ .returned →
      (KeepsRegistry d action d' ↔ DispatchesKnown d action) := by
  obtain ⟨ids, built, d, reach, seen⟩ : ∃ ids, IdManager.ofList ["A"] = some ids ∧
      ∃ d, (system ids).ReachUnder DispatchesKnown d ∧
        (fun d : PacketDemuxer => (d.subscribers.keys, invocations d.log)) d =
          ([2], [(⟨0, 2⟩, ⟨2, 2, [7]⟩), (⟨1, 2⟩, ⟨2, 2, [7]⟩)]) :=
    ⟨_, rfl, TransitionSystem.ReachUnder.start.checked _ receiveSubscribed (by decide +kernel)⟩
  exact ⟨ids, d, built, seen, registry_iff ["A"] ids built d reach⟩

end PacketDemuxer

end PacketComms
