import PacketComms.Demuxer.FrameRun
import PacketComms.Demuxer.Handling
import PacketComms.Demuxer.Ownership
import PacketComms.Lib.History

namespace PacketComms

def DemuxerEvent.subscribed? : DemuxerEvent → Option PacketSubscriber
  | .subscribed s => some s
  | _ => none

/-- The subscribers of a type, in the order of subscription, without those that left. -/
def registered (type : PacketType) (log : List DemuxerEvent) : List PacketSubscriber :=
  (log.filterMap DemuxerEvent.subscribed?).filter (fun s => s.type = type ∧ .unsubscribed s ∉ log)

/-- The packets that the callback of `s` is given, in order. -/
def callsOf (s : PacketSubscriber) (log : List DemuxerEvent) : List SharedPacket :=
  (invocations log).filterMap (fun (t, packet) => if t = s then some packet else none)

/-- A history that ends between the subscription of `s` and its end. -/
def Subscribed (s : PacketSubscriber) (before : List DemuxerEvent) : Prop :=
  .subscribed s ∈ before ∧ .unsubscribed s ∉ before

instance (s : PacketSubscriber) (before : List DemuxerEvent) : Decidable (Subscribed s before) :=
  inferInstanceAs (Decidable (_ ∧ _))

/-- The packet of an event, if it is a packet of the type of `s` that is dispatched while `s`
is subscribed. -/
def dueAt (s : PacketSubscriber) (before : List DemuxerEvent) : DemuxerEvent → List SharedPacket
  | .dispatched packet _ => if packet.packet.type = s.type ∧ Subscribed s before then [packet] else []
  | _ => []

/-- The packets of the type of `s` whose dispatch falls between its subscription and its
end, in order, in a history that continues `before`. -/
def window (s : PacketSubscriber) (before : List DemuxerEvent) : List DemuxerEvent → List SharedPacket
  | [] => []
  | event :: log => dueAt s before event ++ window s (before ++ [event]) log

theorem window_append (s : PacketSubscriber) (before log more : List DemuxerEvent) :
    window s before (log ++ more) = window s before log ++ window s (before ++ log) more := by
  induction log generalizing before with
  | nil => simp [window]
  | cons first log ih => simp [window, ih]

theorem mem_callsOf {s : PacketSubscriber} {log : List DemuxerEvent} {packet : SharedPacket}
    (member : packet ∈ callsOf s log) :
    ∃ before calls after, log = before ++ .dispatched packet calls :: after ∧ s ∈ calls := by
  simp only [callsOf, List.mem_filterMap] at member
  obtain ⟨⟨t, p⟩, member, given⟩ := member
  obtain ⟨rfl, rfl⟩ : t = s ∧ p = packet := by simpa using given
  obtain ⟨event, place, member⟩ := List.mem_flatMap.mp member
  cases event with
  | dispatched q calls =>
    obtain ⟨u, within, same⟩ := List.mem_map.mp member
    cases same
    obtain ⟨before, after, split⟩ := List.append_of_mem place
    exact ⟨before, calls, after, split, within⟩
  | _ => cases member

theorem mem_registered {type : PacketType} {log : List DemuxerEvent} {s : PacketSubscriber} :
    s ∈ registered type log ↔ s.type = type ∧ Subscribed s log := by
  simp only [registered, Subscribed, List.mem_filter, List.mem_filterMap, decide_eq_true_eq]
  constructor
  · rintro ⟨⟨event, member, same⟩, typed, stays⟩
    cases event with
    | subscribed t => cases same; exact ⟨typed, member, stays⟩
    | _ => cases same
  · rintro ⟨typed, member, stays⟩
    exact ⟨⟨_, member, rfl⟩, typed, stays⟩

theorem registered_subscribed {type : PacketType} {log : List DemuxerEvent} {s : PacketSubscriber}
    (fresh : .unsubscribed s ∉ log) : registered type (log ++ [.subscribed s]) =
      registered type log ++ (if s.type = type then [s] else []) := by
  by_cases typed : s.type = type <;>
    simp [registered, DemuxerEvent.subscribed?, typed, fresh]

theorem registered_unsubscribed {type : PacketType} {log : List DemuxerEvent} {s : PacketSubscriber} :
    registered type (log ++ [.unsubscribed s]) = (registered type log).filter (· ≠ s) := by
  simp only [registered, List.filterMap_append, DemuxerEvent.subscribed?, List.filterMap_cons, List.filterMap_nil,
    List.append_nil, List.filter_filter]
  refine List.filter_congr (fun t _ => ?_)
  by_cases same : t = s <;> by_cases typed : t.type = type <;> simp [same, typed]

/-- An event that is neither a subscription nor its end. -/
theorem registered_other {type : PacketType} {log : List DemuxerEvent} {event : DemuxerEvent}
    (quiet : event.subscribed? = none) (stays : ∀ s, event ≠ .unsubscribed s) :
    registered type (log ++ [event]) = registered type log := by
  simp only [registered, List.filterMap_append, List.filterMap_cons, quiet, List.filterMap_nil, List.append_nil]
  refine List.filter_congr (fun t _ => ?_)
  simp [(stays t).symm]

/-- What holds of the history when a packet is dispatched. -/
structure DispatchedAt (before : List DemuxerEvent) (packet : SharedPacket) (calls : List PacketSubscriber) : Prop where
  user : packet.packet.type ≠ IdManager.controlPacket
  all : calls = registered packet.packet.type before
  nodup : calls.Nodup
  left : ∀ s, .destructed s ∈ before → .unsubscribed s ∈ before

/-- One dispatch gives the packet to a subscriber once, if it is due. -/
theorem DispatchedAt.calls {before : List DemuxerEvent} {packet : SharedPacket} {calls : List PacketSubscriber}
    (now : DispatchedAt before packet calls) (s : PacketSubscriber) :
    (calls.map (fun t => (t, packet))).filterMap (fun (t, packet) => if t = s then some packet else none) =
      dueAt s before (.dispatched packet calls) := by
  have once : ∀ calls : List PacketSubscriber, calls.Nodup →
      (calls.map (fun t => (t, packet))).filterMap (fun (t, packet) => if t = s then some packet else none) =
        if s ∈ calls then [packet] else [] := by
    intro calls nodup
    induction calls with
    | nil => rfl
    | cons t calls ih =>
      obtain ⟨fresh, nodup⟩ := List.nodup_cons.mp nodup
      have rest := ih nodup
      by_cases same : t = s
      · subst same
        rw [List.map_cons, List.filterMap_cons, rest]
        simp [fresh]
      · rw [List.map_cons, List.filterMap_cons, rest]
        simp [same, Ne.symm same]
  rw [once calls now.nodup, now.all, dueAt]
  simp only [mem_registered, eq_comm (a := s.type)]

namespace PacketDemuxer

theorem Effect.gone {ids : IdManager} {d d' : PacketDemuxer} {action : DemuxerAction}
    (inv : d.destructor = .returned → d.receive = .exited) (effect : Effect ids d action d') :
    d'.destructor = .returned → d'.receive = .exited := by
  cases effect with
  | unknown | arrived | subscribed | constructed | moveConstructed | moveAssigned | destructedNull => exact inv
  | destructed _ same =>
    subst same
    split
    · simpa using inv
    · exact inv
  | destroys | warned => exact nofun
  | joined _ exited => exact fun _ => exited
  | exits => exact fun _ => rfl
  | readied at_pc | timedOut at_pc | reads at_pc | leaves at_pc | failed at_pc | got at_pc | refused at_pc
  | typed at_pc | threw at_pc | sized at_pc | asserted at_pc | received at_pc | greeted at_pc | rejected at_pc
  | crashed at_pc | continues at_pc | handled at_pc | dispatched at_pc =>
    intro gone
    have exited := inv gone
    rw [at_pc] at exited
    cases exited

theorem reach_gone {ids : IdManager} {C : PacketDemuxer → DemuxerAction → Prop} {d : PacketDemuxer}
    (reach : (system ids).ReachUnder C d) : d.destructor = .returned → d.receive = .exited :=
  reach.invariant (I := fun d => d.destructor = .returned → d.receive = .exited) nofun
    (fun _ inv _ run => (step_effect run).gone inv)

/-- The lists are what the history says, as long as the demuxer lives, and every packet
was dispatched to the whole of its list. -/
structure DispatchInv (d : PacketDemuxer) : Prop where
  lists : d.destructor ≠ .returned → ∀ type, d.subscribers.get type = (registered type d.log).map some
  fresh : ∀ s, .unsubscribed s ∈ d.log → s.addr < d.nextAddr
  left : d.destructor ≠ .returned → ∀ s, .destructed s ∈ d.log → .unsubscribed s ∈ d.log
  dispatched : ∀ before packet calls, before ++ [.dispatched packet calls] <+: d.log → DispatchedAt before packet calls

/-- A step that the lists and their history do not see. -/
theorem DispatchInv.quiet {d d' : PacketDemuxer} (inv : DispatchInv d) (log : d'.log = d.log)
    (get : d'.subscribers.get = d.subscribers.get) (addr : d'.nextAddr = d.nextAddr)
    (destructor : d'.destructor = .returned ↔ d.destructor = .returned) : DispatchInv d' := by
  refine ⟨?_, ?_, ?_, ?_⟩
  · rw [log, get, ne_eq, destructor]; exact inv.lists
  · rw [log, addr]; exact inv.fresh
  · rw [log, ne_eq, destructor]; exact inv.left
  · rw [log]; exact inv.dispatched

/-- A packet that no callback sees. -/
theorem DispatchInv.taken {d d' : PacketDemuxer} (inv : DispatchInv d) {event : DemuxerEvent}
    (log : d'.log = d.log ++ [event]) (packet : ∃ p, event = .greeted p ∨ ∃ p, event = .handled p)
    (get : d'.subscribers.get = d.subscribers.get) (addr : d.nextAddr ≤ d'.nextAddr)
    (destructor : d'.destructor = d.destructor) : DispatchInv d' := by
  have quiet : event.subscribed? = none ∧ (∀ s, event ≠ .unsubscribed s) ∧ (∀ s, event ≠ .destructed s) ∧
      ∀ p calls, event ≠ .dispatched p calls := by
    obtain ⟨p, rfl | ⟨p, rfl⟩⟩ := packet <;> exact ⟨rfl, nofun, nofun, nofun⟩
  obtain ⟨noSubscriber, stays, noHandle, noCall⟩ := quiet
  refine ⟨?_, ?_, ?_, ?_⟩
  · intro alive type
    rw [log, get, registered_other noSubscriber stays]
    exact inv.lists (destructor ▸ alive) type
  · intro s member
    rw [log, List.mem_append, List.mem_singleton] at member
    exact Nat.lt_of_lt_of_le (inv.fresh s (member.resolve_right (stays s).symm)) addr
  · intro alive s member
    rw [log, List.mem_append, List.mem_singleton] at member ⊢
    exact Or.inl (inv.left (destructor ▸ alive) s (member.resolve_right (noHandle s).symm))
  · intro before p calls place
    rw [log] at place
    exact inv.dispatched before p calls (List.prefix_of_concat_ne place (noCall p calls).symm)

theorem DispatchInv.subscribed {d d' : PacketDemuxer} (inv : DispatchInv d) {s : PacketSubscriber}
    (new : s.addr = d.nextAddr) (log : d'.log = d.log ++ [.subscribed s])
    (get : d'.subscribers.get = Function.update d.subscribers.get s.type (d.subscribers.get s.type ++ [some s]))
    (addr : d'.nextAddr = d.nextAddr + 1) (destructor : d'.destructor = d.destructor) : DispatchInv d' := by
  have fresh : .unsubscribed s ∉ d.log := fun member => by
    have := inv.fresh s member
    omega
  refine ⟨?_, ?_, ?_, ?_⟩
  · intro alive type
    rw [log, registered_subscribed fresh, get]
    have old := inv.lists (destructor ▸ alive)
    by_cases same : type = s.type
    · subst same
      simp [old]
    · simp [Function.update_of_ne same, Ne.symm same, old]
  · intro t member
    rw [log] at member
    have := inv.fresh t (by simpa using member)
    omega
  · intro alive t member
    rw [log] at member ⊢
    simpa using inv.left (destructor ▸ alive) t (by simpa using member)
  · intro before packet calls place
    rw [log] at place
    exact inv.dispatched before packet calls (List.prefix_of_concat_ne place (by simp))

/-- The lists without the subscriber of a handle that goes away. -/
theorem DispatchInv.erased {ids : IdManager} {d : PacketDemuxer} (inv : DispatchInv d) (own : OwnInv ids d)
    (alive : d.destructor ≠ .returned) (s : PacketSubscriber) (type : PacketType) :
    Function.update d.subscribers.get s.type ((d.subscribers.get s.type).erase (some s)) type =
      (registered type (d.log ++ [.unsubscribed s])).map some := by
  rw [registered_unsubscribed]
  have old := inv.lists alive
  by_cases same : type = s.type
  · subst same
    have nodup := own.nodup s.type
    rw [Function.update_self, nodup.erase_eq_filter, old, List.filter_map]
    congr 1
    exact List.filter_congr (fun t _ => by by_cases same : t = s <;> simp [same])
  · rw [Function.update_of_ne same, old, List.filter_eq_self.mpr]
    intro t member
    have typed := (mem_registered.mp member).1
    have other : t ≠ s := by
      rintro rfl
      exact same typed.symm
    simpa using other

theorem DispatchInv.destructed {ids : IdManager} {d d' : PacketDemuxer} (inv : DispatchInv d) (own : OwnInv ids d)
    {i : Nat} {s : PacketSubscriber} (held : d.holds i = some s) (drops : DropsExactly d d' s)
    (addr : d'.nextAddr = d.nextAddr) (destructor : d'.destructor = d.destructor) : DispatchInv d' := by
  unfold DropsExactly at drops
  split at drops
  · rename_i gone
    obtain ⟨get, log⟩ := drops
    refine ⟨fun alive => absurd (destructor ▸ gone) alive, ?_, fun alive => absurd (destructor ▸ gone) alive, ?_⟩
    · intro t member
      rw [log] at member
      rw [addr]
      exact inv.fresh t (by simpa using member)
    · intro before packet calls place
      rw [log] at place
      exact inv.dispatched before packet calls (List.prefix_of_concat_ne place (by simp))
  · rename_i alive
    obtain ⟨get, log⟩ := drops
    have log' : d'.log = d.log ++ [.unsubscribed s] ++ [.destructed s] := by rw [log, List.append_assoc]; rfl
    refine ⟨?_, ?_, ?_, ?_⟩
    · intro _ type
      rw [log', registered_other rfl (by simp), get]
      exact inv.erased own alive s type
    · intro t member
      rw [log] at member
      simp at member
      rw [addr]
      rcases member with old | rfl
      · exact inv.fresh t old
      · exact own.fresh i _ held
    · intro _ t member
      rw [log] at member ⊢
      simp at member ⊢
      exact member.imp (inv.left alive t) id
    · intro before packet calls place
      rw [log'] at place
      have kept := List.prefix_of_concat_ne place (by simp)
      exact inv.dispatched before packet calls (List.prefix_of_concat_ne kept (by simp))

/-- The packet goes to the whole list of its type. -/
theorem DispatchInv.dispatch {ids : IdManager} {d d' : PacketDemuxer} (inv : DispatchInv d) (own : OwnInv ids d)
    (alive : d.destructor ≠ .returned) {packet : SharedPacket} (user : packet.packet.type ≠ IdManager.controlPacket)
    (log : d'.log = d.log ++ [.dispatched packet ((d.subscribers.get packet.packet.type).filterMap id)])
    (get : d'.subscribers.get = d.subscribers.get) (addr : d.nextAddr ≤ d'.nextAddr) : DispatchInv d' := by
  refine ⟨?_, ?_, ?_, ?_⟩
  · intro _ type
    rw [log, get, registered_other rfl (by simp)]
    exact inv.lists alive type
  · intro s member
    rw [log] at member
    exact Nat.lt_of_lt_of_le (inv.fresh s (by simpa using member)) addr
  · intro _ s member
    rw [log] at member ⊢
    simpa using inv.left alive s (by simpa using member)
  · intro before p calls place
    rw [log] at place
    rcases List.concat_prefix_concat place with ⟨rfl, now⟩ | old
    · cases now
      have list := inv.lists alive packet.packet.type
      have calls : (d.subscribers.get packet.packet.type).filterMap id = registered packet.packet.type d.log := by
        rw [list, List.filterMap_map]
        simp
      refine ⟨user, calls, ?_, inv.left alive⟩
      rw [calls]
      have nodup := own.nodup packet.packet.type
      rw [list] at nodup
      exact nodup.of_map _
    · exact inv.dispatched before p calls old

theorem Effect.dispatchInv {names : List String} {ids : IdManager} (built : IdManager.ofList names = some ids)
    {d d' : PacketDemuxer} {action : DemuxerAction} (own : OwnInv ids d)
    (gone : d.destructor = .returned → d.receive = .exited) (inv : DispatchInv d)
    (effect : Effect ids d action d') : DispatchInv d' := by
  cases effect with
  | unknown => exact inv
  | @subscribed i name type => exact inv.subscribed (s := ⟨d.nextAddr, type⟩) rfl rfl rfl rfl rfl
  | @destructed i s next handle same =>
    refine inv.destructed own (holds_eq_some.mpr handle) (own.drops built handle (.destructed handle same)) ?_ ?_
    · simp only [same]
      split <;> simp
    · simp only [same]
      split <;> simp
  | @dispatched packet at_pc user =>
    have alive : d.destructor ≠ .returned := fun dead => by
      have exited := gone dead
      rw [at_pc] at exited
      cases exited
    exact inv.dispatch own alive user rfl (by funext type; simp) (Nat.le_succ _)
  | @handled packet => exact inv.taken rfl ⟨packet, Or.inr ⟨_, rfl⟩⟩ rfl (Nat.le_succ _) rfl
  | @greeted packet | @rejected packet => exact inv.taken rfl ⟨packet, Or.inl rfl⟩ rfl le_rfl rfl
  | joined => exact ⟨fun alive => absurd rfl alive, inv.fresh, fun alive => absurd rfl alive, inv.dispatched⟩
  | destroys at_pc | warned at_pc => exact inv.quiet rfl rfl rfl (by simp [at_pc])
  | _ => exact inv.quiet rfl rfl rfl Iff.rfl

theorem reach_dispatchInv {names : List String} {ids : IdManager} (built : IdManager.ofList names = some ids)
    {C : PacketDemuxer → DemuxerAction → Prop} {d : PacketDemuxer} (reach : (system ids).ReachUnder C d) :
    DispatchInv d := by
  refine reach.invariant ⟨fun _ _ => rfl, nofun, fun _ => nofun, ?_⟩ ?_
  · intro before packet calls impossible
    simp [system] at impossible
  · exact fun before inv _ run =>
      (step_effect run).dispatchInv built (reach_ownInv built before) (reach_gone before) inv

/-- The calls of a callback are the packets that were due. -/
theorem callsOf_eq_window {log : List DemuxerEvent} (s : PacketSubscriber)
    (dispatched : ∀ before packet calls, before ++ [.dispatched packet calls] <+: log →
      DispatchedAt before packet calls) : callsOf s log = window s [] log := by
  induction log using List.reverseRecOn with
  | nil => rfl
  | append_singleton log event ih =>
    have old :=
      ih (fun before packet calls place => dispatched before packet calls (place.trans (List.prefix_append _ _)))
    rw [window_append, List.nil_append, ← old, callsOf, invocations_append, List.filterMap_append, ← callsOf]
    congr 1
    cases event with
    | dispatched packet calls =>
      rw [window, window, List.append_nil]
      exact (dispatched log packet calls List.prefix_rfl).calls s
    | _ => rfl

end PacketDemuxer

end PacketComms
