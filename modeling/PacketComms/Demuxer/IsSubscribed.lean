import PacketComms.Demuxer.Ownership

namespace PacketComms

/-- `PacketDemuxer::isSubscribed`. `none`: the demuxer no longer exists. -/
def PacketDemuxer.isSubscribed (d : PacketDemuxer) (s : PacketSubscriber) : Option Bool :=
  if d.destructor = .returned then none
  else if s.type ∈ d.subscribers.keys then some ((d.subscribers.get s.type).any (· = some s))
  else some false

/-- `PacketSubscriber::isSubscribed`, where `d` is the demuxer that `m_comms` refers to. -/
def PacketSubscriber.isSubscribed (s : PacketSubscriber) (d : PacketDemuxer) : Option Bool := d.isSubscribed s

/-- `PacketSubscription::isSubscribed` of a handle with this `m_subscriber`. `none`: it is the null pointer, or the
demuxer no longer exists. -/
def PacketSubscription.isSubscribed (subscriber : SubscriberPtr) (d : PacketDemuxer) : Option Bool :=
  match subscriber with
  | none => none
  | some s => s.isSubscribed d

namespace PacketDemuxer

/-- The subscriber is in the registry, and the demuxer lives. -/
def Registered (d : PacketDemuxer) (s : PacketSubscriber) : Prop :=
  d.destructor ≠ .returned ∧ some s ∈ d.subscribers.get s.type

/-- The call has a meaning, and says whether the handle has a subscriber that is registered. -/
def Answers (d : PacketDemuxer) (subscriber : SubscriberPtr) : Prop :=
  ∃ answer, PacketSubscription.isSubscribed subscriber d = some answer ∧
    (answer = true ↔ ∃ s, subscriber = some s ∧ d.Registered s)

/-- A live demuxer finds a subscriber exactly if it is in its list. -/
theorem isSubscribed_eq {d : PacketDemuxer} (alive : d.destructor ≠ .returned) (s : PacketSubscriber) :
    ∃ answer, d.isSubscribed s = some answer ∧ (answer = true ↔ d.Registered s) := by
  rw [isSubscribed, if_neg alive]
  split
  · exact ⟨_, rfl, by simp [Registered, alive]⟩
  · rename_i absent
    refine ⟨false, rfl, ?_⟩
    rw [Registered, d.subscribers.absent s.type absent]
    simp

/-- A handle that has a subscriber has one that is registered, as long as the demuxer lives. -/
theorem OwnInv.handle_registered {ids : IdManager} {d : PacketDemuxer} (inv : OwnInv ids d)
    (alive : d.destructor ≠ .returned) {i : Nat} {s : PacketSubscriber} (handle : d.handles i = some (some s)) :
    d.Registered s :=
  ⟨alive, inv.registered alive i s (holds_eq_some.mpr handle)⟩

/-- Over all sequences of operations on handles: the call answers for a handle exactly if that is not empty and the
demuxer has not been destroyed, and then the answer is yes. -/
theorem isSubscribed_iff (names : List String) (ids : IdManager) (built : IdManager.ofList names = some ids)
    (d : PacketDemuxer) (reach : (system ids).Reach d) (i : Nat) (subscriber : SubscriberPtr)
    (handle : d.handles i = some subscriber) :
    (d.Answers subscriber ↔ subscriber ≠ none ∧ d.destructor ≠ .returned) ∧
    (d.Answers subscriber → PacketSubscription.isSubscribed subscriber d = some true) := by
  have inv := reach_ownInv built reach
  cases subscriber with
  | none =>
    have undefined : ¬ d.Answers none := by
      rintro ⟨answer, called, -⟩
      cases called
    exact ⟨by simp [undefined], fun answers => absurd answers undefined⟩
  | some s =>
    by_cases gone : d.destructor = .returned
    · have undefined : ¬ d.Answers (some s) := by
        rintro ⟨answer, called, -⟩
        simp [PacketSubscription.isSubscribed, PacketSubscriber.isSubscribed, isSubscribed, gone] at called
      exact ⟨by simp [undefined, gone], fun answers => absurd answers undefined⟩
    · obtain ⟨answer, called, registered⟩ := isSubscribed_eq gone s
      have yes : answer = true := registered.mpr (inv.handle_registered gone handle)
      have answers : d.Answers (some s) := ⟨answer, called, by simp [registered]⟩
      exact ⟨by simp [answers, gone], fun _ => by rw [← yes]; exact called⟩

/-- A default-constructed handle. -/
theorem isSubscribed_fails : ¬ ∀ (names : List String) (ids : IdManager) (d : PacketDemuxer) (i : Nat)
    (subscriber : SubscriberPtr), IdManager.ofList names = some ids → (system ids).Reach d →
    d.handles i = some subscriber → d.Answers subscriber := by
  intro all
  obtain ⟨ids, built⟩ : ∃ ids, IdManager.ofList [] = some ids := IdManager.ofList_exists (by decide)
  have initial : (system ids).Reach {} := .start
  have constructed : (system ids).run {} [.construct 0] =
      some { handles := Function.update (fun _ => none) 0 (some none) } := rfl
  have reach := initial.run (fun _ _ _ => trivial) constructed
  obtain ⟨answer, called, -⟩ := all [] ids _ 0 none built reach (by simp)
  cases called

/-- A handle that was moved, and then its demuxer destroyed. -/
def outlives : List DemuxerAction :=
  [.subscribe 0 "A", .moveConstruct 1 0, .ready false, .destroy, .receive, .destroy, .destroy]

theorem isSubscribed_iff_outlives : ∃ (ids : IdManager) (d : PacketDemuxer), IdManager.ofList ["A"] = some ids ∧
    d.destructor = .returned ∧ d.handles 1 = some (some ⟨0, 2⟩) ∧
    (d.Answers (some ⟨0, 2⟩) ↔ some (⟨0, 2⟩ : PacketSubscriber) ≠ none ∧ d.destructor ≠ .returned) ∧
    (d.Answers (some ⟨0, 2⟩) → PacketSubscription.isSubscribed (some ⟨0, 2⟩) d = some true) := by
  obtain ⟨ids, built, d, reach, seen⟩ : ∃ ids, IdManager.ofList ["A"] = some ids ∧ ∃ d, (system ids).Reach d ∧
      (fun d : PacketDemuxer => (d.destructor, d.handles 1)) d = (.returned, some (some ⟨0, 2⟩)) :=
    ⟨_, rfl, TransitionSystem.ReachUnder.start.computed _ outlives (fun _ _ _ => trivial) (by decide)⟩
  obtain ⟨gone, handle⟩ := Prod.mk.inj seen
  exact ⟨ids, d, built, gone, handle, isSubscribed_iff ["A"] ids built d reach 1 (some ⟨0, 2⟩) handle⟩

end PacketDemuxer

end PacketComms
