import PacketComms.Demuxer.Effect
import Mathlib.Data.List.Nodup
import Mathlib.Logic.Equiv.Basic

namespace PacketComms

/-- Where the subscriber occurs once, `remove_if` and `erase` take out just it. -/
theorem removeIf_of_mem {s : PacketSubscriber} {queue : List SubscriberPtr} (nodup : queue.Nodup)
    (member : some s ∈ queue) : (removeIf s queue).2 ≠ queue.length ∧
      (removeIf s queue).1.eraseIdx (removeIf s queue).2 = queue.erase (some s) := by
  have kept : queue.filter (· ≠ some s) = queue.erase (some s) := by
    rw [nodup.erase_eq_filter]
    exact List.filter_congr (fun ptr _ => by by_cases same : ptr = some s <;> simp [same])
  have length := List.length_erase_of_mem member
  have positive := List.length_pos_of_mem member
  unfold removeIf
  dsimp only
  rw [kept]
  refine ⟨by omega, ?_⟩
  have single : ((queue.drop (queue.erase (some s)).length).map
      (fun ptr => if ptr = some s then ptr else none)).length = 1 := by
    rw [List.length_map, List.length_drop]
    omega
  obtain ⟨x, last⟩ := List.length_eq_one_iff.mp single
  rw [last, List.eraseIdx_append_of_length_le le_rfl]
  simp

/-- The pointers of a list go away: each lowers the count of its subscriber. -/
theorem foldl_release (useCount : Nat → Nat) (ptrs : List SubscriberPtr) (addr : Nat) :
    ptrs.foldl release useCount addr =
      useCount addr - ptrs.countP (fun ptr => ptr.any (fun s => s.addr = addr)) := by
  induction ptrs generalizing useCount with
  | nil => rfl
  | cons ptr ptrs ih =>
    rw [List.foldl_cons, ih, List.countP_cons]
    cases ptr with
    | none => simp [release]
    | some s =>
      by_cases same : addr = s.addr
      · subst same
        simp [release]
        omega
      · simp [release, Function.update_of_ne same, Ne.symm same]

namespace PacketDemuxer

/-- The subscriber that handle `i` holds, if the handle exists and is not empty. -/
def holds (d : PacketDemuxer) (i : Nat) : Option PacketSubscriber := (d.handles i).join

theorem holds_update {d d' : PacketDemuxer} (i : Nat) (handle : Option SubscriberPtr)
    (handles : d'.handles = Function.update d.handles i handle) :
    d'.holds = Function.update d.holds i handle.join := by
  funext j
  by_cases same : j = i
  · subst same
    simp [holds, handles]
  · simp [holds, handles, Function.update_of_ne same]

/-- A handle that holds nothing comes or goes. -/
theorem holds_update_none {d d' : PacketDemuxer} {i : Nat} (nothing : d.holds i = none) (handle : Option SubscriberPtr)
    (hollow : handle.join = none) (handles : d'.handles = Function.update d.handles i handle) (j : Nat) :
    d'.holds j = d.holds j := by
  rw [holds_update i handle handles, hollow, ← nothing, Function.update_eq_self]

theorem holds_eq_some {d : PacketDemuxer} {i : Nat} {s : PacketSubscriber} :
    d.holds i = some s ↔ d.handles i = some (some s) := by
  unfold holds
  cases d.handles i with
  | none => simp
  | some ptr => simp

/-- Between the handles and the lists there is a one to one correspondence, as long as the
demuxer lives, and the use counts follow it. -/
structure OwnInv (ids : IdManager) (d : PacketDemuxer) : Prop where
  unique : ∀ i j s t, d.holds i = some s → d.holds j = some t → s.addr = t.addr → i = j
  fresh : ∀ i s, d.holds i = some s → s.addr < d.nextAddr
  registered : d.destructor ≠ .returned → ∀ i s, d.holds i = some s → some s ∈ d.subscribers.get s.type
  held : ∀ type ptr, ptr ∈ d.subscribers.get type → ∃ s i, ptr = some s ∧ s.type = type ∧ d.holds i = some s
  issued : ∀ type, d.subscribers.get type ≠ [] → ∃ name, ids.toId name = some type
  nodup : ∀ type, (d.subscribers.get type).Nodup
  gone : d.destructor = .returned → ∀ type, d.subscribers.get type = []
  counts : ∀ i s, d.holds i = some s → d.useCount s.addr = if d.destructor = .returned then 1 else 2
  sound : d.fault = false

/-- Handles may change places, and everything else that the correspondence speaks of is
left alone. -/
theorem OwnInv.permuted {ids : IdManager} {d d' : PacketDemuxer} (inv : OwnInv ids d) (σ : Equiv.Perm Nat)
    (holds : ∀ i, d'.holds i = d.holds (σ i)) (addr : d.nextAddr ≤ d'.nextAddr)
    (get : d'.subscribers.get = d.subscribers.get) (useCount : d'.useCount = d.useCount)
    (destructor : d'.destructor = .returned ↔ d.destructor = .returned) (fault : d'.fault = d.fault) :
    OwnInv ids d' := by
  refine ⟨?_, ?_, ?_, ?_, ?_, ?_, ?_, ?_, ?_⟩
  · intro i j s t hi hj same
    exact σ.injective (inv.unique _ _ s t (holds i ▸ hi) (holds j ▸ hj) same)
  · intro i s hi
    exact Nat.lt_of_lt_of_le (inv.fresh _ s (holds i ▸ hi)) addr
  · intro alive i s hi
    rw [get]
    exact inv.registered (fun dead => alive (destructor.mpr dead)) _ s (holds i ▸ hi)
  · intro type ptr member
    obtain ⟨s, i, same, typed, hi⟩ := inv.held type ptr (get ▸ member)
    exact ⟨s, σ.symm i, same, typed, by rw [holds, Equiv.apply_symm_apply]; exact hi⟩
  · rw [get]; exact inv.issued
  · rw [get]; exact inv.nodup
  · rw [get]; exact fun dead => inv.gone (destructor.mp dead)
  · intro i s hi
    rw [useCount, inv.counts _ s (holds i ▸ hi)]
    simp only [destructor]
  · rw [fault]; exact inv.sound

/-- A step that concerns neither handles nor lists. -/
theorem OwnInv.quiet {ids : IdManager} {d d' : PacketDemuxer} (inv : OwnInv ids d)
    (handles : d'.handles = d.handles) (addr : d.nextAddr ≤ d'.nextAddr)
    (get : d'.subscribers.get = d.subscribers.get) (useCount : d'.useCount = d.useCount)
    (destructor : d'.destructor = .returned ↔ d.destructor = .returned) (fault : d'.fault = d.fault) :
    OwnInv ids d' :=
  inv.permuted (Equiv.refl _) (fun i => by rw [PacketDemuxer.holds, handles]; rfl) addr get useCount destructor fault

theorem OwnInv.not_null {ids : IdManager} {d : PacketDemuxer} (inv : OwnInv ids d) (type : PacketType) :
    none ∉ d.subscribers.get type := by
  intro member
  obtain ⟨s, i, null, -⟩ := inv.held type none member
  cases null

theorem OwnInv.typed {ids : IdManager} {d : PacketDemuxer} (inv : OwnInv ids d) {type : PacketType}
    {s : PacketSubscriber} (member : some s ∈ d.subscribers.get type) : s.type = type ∧ ∃ i, d.holds i = some s := by
  obtain ⟨t, i, same, typed, held⟩ := inv.held type _ member
  cases same
  exact ⟨typed, i, held⟩

/-- What `unsubscribe` does for a subscriber that a handle holds. -/
theorem OwnInv.unsubscribe {names : List String} {ids : IdManager} (built : IdManager.ofList names = some ids)
    {d : PacketDemuxer} (inv : OwnInv ids d) {i : Nat} {s : PacketSubscriber} (holds : d.holds i = some s)
    (alive : d.destructor ≠ .returned) :
    d.unsubscribe ids s = { d with
      subscribers := d.subscribers.set s.type ((d.subscribers.get s.type).erase (some s))
      useCount := Function.update d.useCount s.addr 1
      log := d.log ++ [.unsubscribed s] } := by
  have member := inv.registered alive i s holds
  have nodup := inv.nodup s.type
  obtain ⟨name, issued⟩ := inv.issued s.type (List.ne_nil_of_mem member)
  have range : ids.toString s.type ≠ none := by
    rw [← Option.isSome_iff_ne_none]
    exact IdManager.toString_isSome built issued
  obtain ⟨found, erased⟩ := removeIf_of_mem nodup member
  have before : (d.subscribers.get s.type).count (some s) = 1 := List.count_eq_one_of_mem nodup member
  have after : ((d.subscribers.get s.type).erase (some s)).count (some s) = 0 :=
    List.count_eq_zero_of_not_mem (fun again => (List.Nodup.mem_erase_iff nodup).mp again |>.1 rfl)
  have counts := inv.counts i s holds
  rw [if_neg alive] at counts
  unfold PacketDemuxer.unsubscribe
  rw [if_neg (not_or.mpr ⟨alive, range⟩)]
  dsimp only
  rw [if_neg found, erased, before, after, counts]

/-- What the destructor of a handle does while the demuxer lives. -/
theorem OwnInv.destruct_alive {names : List String} {ids : IdManager} (built : IdManager.ofList names = some ids)
    {d : PacketDemuxer} (inv : OwnInv ids d) {i : Nat} {s : PacketSubscriber} (holds : d.holds i = some s)
    (alive : d.destructor ≠ .returned) :
    (if d.useCount s.addr > 1 then d.unsubscribe ids s else d) = { d with
      subscribers := d.subscribers.set s.type ((d.subscribers.get s.type).erase (some s))
      useCount := Function.update d.useCount s.addr 1
      log := d.log ++ [.unsubscribed s] } := by
  have counts := inv.counts i s holds
  rw [if_neg alive] at counts
  rw [counts, if_pos (by omega)]
  exact inv.unsubscribe built holds alive

/-- After the demuxer is gone it calls nothing. -/
theorem OwnInv.destruct_gone {ids : IdManager} {d : PacketDemuxer} (inv : OwnInv ids d) {i : Nat}
    {s : PacketSubscriber} (holds : d.holds i = some s) (gone : d.destructor = .returned) :
    (if d.useCount s.addr > 1 then d.unsubscribe ids s else d) = d := by
  rw [inv.counts i s holds, if_pos gone, if_neg (by omega)]

/-- A new subscriber, whose address is not in use. -/
theorem OwnInv.subscribed {ids : IdManager} {d d' : PacketDemuxer} (inv : OwnInv ids d) {i : Nat} {name : String}
    {s : PacketSubscriber} (empty : d.holds i = none) (alive : d.destructor ≠ .returned)
    (issued : ids.toId name = some s.type) (new : s.addr = d.nextAddr)
    (holds : d'.holds = Function.update d.holds i (some s)) (addr : d'.nextAddr = d.nextAddr + 1)
    (get : d'.subscribers.get = Function.update d.subscribers.get s.type (d.subscribers.get s.type ++ [some s]))
    (useCount : d'.useCount = Function.update d.useCount s.addr 2)
    (destructor : d'.destructor = d.destructor) (fault : d'.fault = d.fault) : OwnInv ids d' := by
  have cases_holds : ∀ j t, d'.holds j = some t → (j = i ∧ t = s) ∨ (j ≠ i ∧ d.holds j = some t) := by
    intro j t hj
    rw [holds, Function.update_apply, ite_eq_iff] at hj
    rcases hj with ⟨here, new⟩ | old
    · exact Or.inl ⟨here, (Option.some.inj new).symm⟩
    · exact Or.inr old
  have other_holds : ∀ j t, d.holds j = some t → d'.holds j = some t := by
    intro j t hj
    have other : j ≠ i := by
      rintro rfl
      rw [empty] at hj
      cases hj
    rw [holds, Function.update_of_ne other, hj]
  have cases_get : ∀ type ptr, ptr ∈ d'.subscribers.get type →
      (type = s.type ∧ ptr = some s) ∨ ptr ∈ d.subscribers.get type := by
    intro type ptr member
    rw [get] at member
    by_cases same : type = s.type
    · subst same
      rw [Function.update_self, List.mem_append, List.mem_singleton] at member
      exact member.symm.imp (fun new => ⟨rfl, new⟩) id
    · rw [Function.update_of_ne same] at member
      exact Or.inr member
  have not_old : ∀ j t, d.holds j = some t → s.addr ≠ t.addr := by
    intro j t hj same
    have old := inv.fresh j t hj
    omega
  refine ⟨?_, ?_, ?_, ?_, ?_, ?_, ?_, ?_, by rw [fault]; exact inv.sound⟩
  · intro j k t u hj hk same
    rcases cases_holds j t hj with ⟨rfl, rfl⟩ | ⟨-, oldJ⟩ <;> rcases cases_holds k u hk with ⟨rfl, rfl⟩ | ⟨-, oldK⟩
    · rfl
    · exact absurd same (not_old _ u oldK)
    · exact absurd same.symm (not_old _ t oldJ)
    · exact inv.unique j k t u oldJ oldK same
  · intro j t hj
    rcases cases_holds j t hj with ⟨-, rfl⟩ | ⟨-, old⟩
    · omega
    · have := inv.fresh j t old
      omega
  · intro _ j t hj
    rw [get]
    rcases cases_holds j t hj with ⟨-, rfl⟩ | ⟨-, old⟩
    · simp
    · have member := inv.registered alive j t old
      by_cases same : t.type = s.type
      · rw [same, Function.update_self]
        exact List.mem_append_left _ (same ▸ member)
      · rw [Function.update_of_ne same]
        exact member
  · intro type ptr member
    rcases cases_get type ptr member with ⟨rfl, rfl⟩ | old
    · exact ⟨s, i, rfl, rfl, by rw [holds, Function.update_self]⟩
    · obtain ⟨t, j, same, typed, hj⟩ := inv.held type ptr old
      exact ⟨t, j, same, typed, other_holds j t hj⟩
  · intro type nonempty
    by_cases same : type = s.type
    · exact ⟨name, same ▸ issued⟩
    · rw [get, Function.update_of_ne same] at nonempty
      exact inv.issued type nonempty
  · intro type
    rw [get]
    by_cases same : type = s.type
    · subst same
      rw [Function.update_self, List.nodup_append]
      refine ⟨inv.nodup _, List.nodup_singleton _, ?_⟩
      intro ptr old new single eq
      rw [List.mem_singleton.mp single] at eq
      obtain ⟨-, j, hj⟩ := inv.typed (eq ▸ old)
      exact not_old j s hj rfl
    · rw [Function.update_of_ne same]
      exact inv.nodup type
  · intro dead
    exact absurd (destructor ▸ dead) alive
  · intro j t hj
    rw [useCount, destructor, if_neg alive]
    rcases cases_holds j t hj with ⟨-, rfl⟩ | ⟨-, old⟩
    · rw [Function.update_self]
    · rw [Function.update_of_ne (not_old j t old).symm, inv.counts j t old, if_neg alive]

/-- A handle goes away, and its subscriber leaves its list, if it is in one. -/
theorem OwnInv.dropped {ids : IdManager} {d d' : PacketDemuxer} (inv : OwnInv ids d) {i : Nat}
    {s : PacketSubscriber} (held : d.holds i = some s)
    (holds : d'.holds = Function.update d.holds i none) (addr : d'.nextAddr = d.nextAddr)
    (get : d'.subscribers.get = Function.update d.subscribers.get s.type ((d.subscribers.get s.type).erase (some s)))
    (useCount : ∀ a, a ≠ s.addr → d'.useCount a = d.useCount a)
    (destructor : d'.destructor = d.destructor) (fault : d'.fault = d.fault) : OwnInv ids d' := by
  have old_holds : ∀ j t, d'.holds j = some t → j ≠ i ∧ d.holds j = some t := by
    intro j t hj
    rw [holds, Function.update_apply, ite_eq_iff] at hj
    rcases hj with ⟨-, none⟩ | old
    · cases none
    · exact old
  have mem_get : ∀ type ptr, ptr ∈ d'.subscribers.get type ↔ ptr ∈ d.subscribers.get type ∧ ptr ≠ some s := by
    intro type ptr
    rw [get]
    by_cases same : type = s.type
    · subst same
      rw [Function.update_self, (inv.nodup _).mem_erase_iff, and_comm]
    · rw [Function.update_of_ne same]
      refine ⟨fun member => ⟨member, ?_⟩, And.left⟩
      rintro rfl
      exact same (inv.typed member).1.symm
  refine ⟨?_, ?_, ?_, ?_, ?_, ?_, ?_, ?_, by rw [fault]; exact inv.sound⟩
  · intro j k t u hj hk
    exact inv.unique j k t u (old_holds j t hj).2 (old_holds k u hk).2
  · intro j t hj
    rw [addr]
    exact inv.fresh j t (old_holds j t hj).2
  · intro alive j t hj
    obtain ⟨other, old⟩ := old_holds j t hj
    refine (mem_get _ _).mpr ⟨inv.registered (destructor ▸ alive) j t old, fun same => ?_⟩
    cases same
    exact other (inv.unique j i s s old held rfl)
  · intro type ptr member
    obtain ⟨old, differs⟩ := (mem_get type ptr).mp member
    obtain ⟨t, j, rfl, typed, hj⟩ := inv.held type ptr old
    refine ⟨t, j, rfl, typed, ?_⟩
    have other : j ≠ i := by
      rintro rfl
      exact differs (hj.symm.trans held)
    rw [holds, Function.update_of_ne other, hj]
  · intro type nonempty
    obtain ⟨ptr, member⟩ := List.exists_mem_of_ne_nil _ nonempty
    exact inv.issued type (List.ne_nil_of_mem ((mem_get type ptr).mp member).1)
  · intro type
    rw [get]
    by_cases same : type = s.type
    · subst same
      rw [Function.update_self]
      exact (inv.nodup _).erase _
    · rw [Function.update_of_ne same]
      exact inv.nodup type
  · intro dead type
    rw [List.eq_nil_iff_forall_not_mem]
    intro ptr member
    have old := ((mem_get type ptr).mp member).1
    rw [inv.gone (destructor ▸ dead) type] at old
    cases old
  · intro j t hj
    obtain ⟨other, old⟩ := old_holds j t hj
    have apart : t.addr ≠ s.addr := fun same => other (inv.unique j i t s old held same)
    rw [useCount _ apart, destructor]
    exact inv.counts j t old

theorem OwnInv.destructed {names : List String} {ids : IdManager} (built : IdManager.ofList names = some ids)
    {d : PacketDemuxer} (inv : OwnInv ids d) {i : Nat} {s : PacketSubscriber} (handle : d.handles i = some (some s))
    {d' : PacketDemuxer} (same : d' = if d.useCount s.addr > 1 then d.unsubscribe ids s else d) :
    OwnInv ids { d' with
      useCount := release d'.useCount (some s)
      handles := Function.update d'.handles i none
      log := d'.log ++ [.destructed s] } := by
  have held := holds_eq_some.mpr handle
  by_cases gone : d.destructor = .returned
  · rw [inv.destruct_gone held gone] at same
    subst same
    refine inv.dropped held (holds_update i none rfl) rfl ?_ ?_ rfl rfl
    · rw [inv.gone gone s.type, List.erase_nil, ← inv.gone gone s.type, Function.update_eq_self]
    · intro a other
      exact Function.update_of_ne other ..
  · rw [inv.destruct_alive built held gone] at same
    subst same
    refine inv.dropped held (holds_update i none rfl) rfl rfl ?_ rfl rfl
    intro a other
    simp [release, Function.update_of_ne other]

/-- All lists together hold the subscriber of a handle once. -/
theorem OwnInv.countP_lists {ids : IdManager} {d : PacketDemuxer} (inv : OwnInv ids d)
    (alive : d.destructor ≠ .returned) {i : Nat} {s : PacketSubscriber} (held : d.holds i = some s) :
    (d.subscribers.keys.flatMap d.subscribers.get).countP (fun ptr => ptr.any (fun t => t.addr = s.addr)) = 1 := by
  have member := inv.registered alive i s held
  have only : ∀ ptr ∈ d.subscribers.keys.flatMap d.subscribers.get,
      ptr.any (fun t => t.addr = s.addr) ↔ ptr = some s := by
    intro ptr there
    obtain ⟨type, -, there⟩ := List.mem_flatMap.mp there
    obtain ⟨t, j, rfl, -, hj⟩ := inv.held type ptr there
    simp only [Option.any_some, decide_eq_true_eq, Option.some.injEq]
    refine ⟨fun same => ?_, fun same => by rw [same]⟩
    have place := inv.unique j i t s hj held same
    subst place
    exact Option.some.inj (hj.symm.trans held)
  have nodup : (d.subscribers.keys.flatMap d.subscribers.get).Nodup := by
    rw [List.nodup_flatMap]
    refine ⟨fun type _ => inv.nodup type, d.subscribers.nodup.imp ?_⟩
    intro type other differ ptr left right
    obtain ⟨t, j, rfl, typed, -⟩ := inv.held type ptr left
    exact differ (typed.symm.trans (inv.typed right).1)
  have there : some s ∈ d.subscribers.keys.flatMap d.subscribers.get :=
    List.mem_flatMap.mpr ⟨s.type, KeyedLists.mem_keys_of_mem member, member⟩
  rw [← List.count_eq_one_of_mem nodup there, List.count]
  refine List.countP_congr (fun ptr within => ?_)
  rw [only ptr within, beq_iff_eq]

theorem OwnInv.joined {ids : IdManager} {d : PacketDemuxer} (inv : OwnInv ids d) (alive : d.destructor = .joining) :
    OwnInv ids { d with
      destructor := .returned
      subscribers := .empty
      useCount := (d.subscribers.keys.flatMap d.subscribers.get).foldl release d.useCount } := by
  have living : d.destructor ≠ .returned := by rw [alive]; nofun
  refine ⟨inv.unique, inv.fresh, fun dead => absurd rfl dead, nofun, fun type some => absurd rfl some,
    fun _ => List.nodup_nil, fun _ _ => rfl, ?_, inv.sound⟩
  intro i s held
  have counts := inv.counts i s held
  rw [if_neg living] at counts
  change (d.subscribers.keys.flatMap d.subscribers.get).foldl release d.useCount s.addr = 1
  rw [foldl_release, inv.countP_lists living held, counts]

theorem Effect.ownInv {names : List String} {ids : IdManager} (built : IdManager.ofList names = some ids)
    {d d' : PacketDemuxer} {action : DemuxerAction} (inv : OwnInv ids d) (effect : Effect ids d action d') :
    OwnInv ids d' := by
  cases effect with
  | unknown => exact inv
  | @subscribed i name type empty alive issued =>
    exact inv.subscribed (s := ⟨d.nextAddr, type⟩) (by rw [holds, empty]; rfl) alive issued rfl
      (holds_update i (some (some ⟨d.nextAddr, type⟩)) rfl) rfl rfl rfl rfl rfl
  | destructed handle same => exact inv.destructed built handle same
  | joined alive => exact inv.joined alive
  | @dispatched packet =>
    have sound : (d.subscribers.get packet.type).contains none = false := by
      simpa using inv.not_null packet.type
    exact inv.quiet rfl (Nat.le_succ _) (by funext type; simp) rfl Iff.rfl (by simp only [sound, Bool.or_false])
  | handled => exact inv.quiet rfl (Nat.le_succ _) rfl rfl Iff.rfl rfl
  | @constructed i empty =>
    have nothing : d.holds i = none := by simp [holds, empty]
    exact inv.permuted (Equiv.refl _) (holds_update_none nothing (some none) rfl rfl) le_rfl rfl rfl Iff.rfl rfl
  | @destructedNull i null =>
    have nothing : d.holds i = none := by simp [holds, null]
    exact inv.permuted (Equiv.refl _) (holds_update_none nothing none rfl rfl) le_rfl rfl rfl Iff.rfl rfl
  | @moveConstructed i j ptr empty from_ =>
    refine inv.permuted (Equiv.swap i j) (fun k => ?_) le_rfl rfl rfl Iff.rfl rfl
    have apart : i ≠ j := by
      rintro rfl
      rw [empty] at from_
      cases from_
    rw [Equiv.swap_apply_def]
    split
    · rename_i here
      simp [holds, here, from_]
    · rename_i notHere
      split
      · rename_i there
        simp [holds, there, apart.symm, empty]
      · rename_i notThere
        simp [holds, notHere, notThere]
  | @moveAssigned i j this toMove left right =>
    refine inv.permuted (Equiv.swap i j) (fun k => ?_) le_rfl rfl rfl Iff.rfl rfl
    rw [Equiv.swap_apply_def]
    split
    · rename_i here
      by_cases same : i = j
      · subst same
        cases left.symm.trans right
        simp [holds, here, left]
      · simp [holds, here, same, right]
    · rename_i notHere
      split
      · rename_i there
        simp [holds, there, left]
      · rename_i notThere
        simp [holds, notHere, notThere]
  | destroys at_pc => exact inv.quiet rfl le_rfl rfl rfl (by simp [at_pc]) rfl
  | warned at_pc =>
    refine inv.quiet rfl le_rfl rfl rfl (by simp [at_pc]) ?_
    have range : d.subscribers.keys.any (fun type =>
        d.subscribers.get type ≠ [] ∧ ids.toString type = none) = false := by
      rw [List.any_eq_false]
      intro type _
      simp only [decide_eq_true_eq, not_and]
      intro nonempty
      obtain ⟨name, issued⟩ := inv.issued type nonempty
      rw [← ne_eq, ← Option.isSome_iff_ne_none]
      exact IdManager.toString_isSome built issued
    simp only [range, Bool.or_false]
  | _ => exact inv.quiet rfl le_rfl rfl rfl Iff.rfl rfl

theorem reach_ownInv {names : List String} {ids : IdManager} (built : IdManager.ofList names = some ids)
    {C : PacketDemuxer → DemuxerAction → Prop} {d : PacketDemuxer} (reach : (system ids).ReachUnder C d) :
    OwnInv ids d := by
  refine reach.invariant ⟨nofun, nofun, fun _ => nofun, fun _ => nofun, fun _ some => absurd rfl some,
    fun _ => List.nodup_nil, fun _ _ => rfl, nofun, rfl⟩ ?_
  exact fun _ inv _ run => (step_effect run).ownInv built inv

/-- What the destructor of the handle `i`, which holds `s`, does to lists and history. -/
def DropsExactly (d d' : PacketDemuxer) (s : PacketSubscriber) : Prop :=
  if d.destructor = .returned then
    d'.subscribers.get = d.subscribers.get ∧ d'.log = d.log ++ [.destructed s]
  else
    d'.subscribers.get = Function.update d.subscribers.get s.type ((d.subscribers.get s.type).erase (some s)) ∧
    d'.log = d.log ++ [.unsubscribed s, .destructed s]

theorem OwnInv.drops {names : List String} {ids : IdManager} (built : IdManager.ofList names = some ids)
    {d d' : PacketDemuxer} (inv : OwnInv ids d) {i : Nat} {s : PacketSubscriber}
    (handle : d.handles i = some (some s)) (effect : Effect ids d (.destruct i) d') : DropsExactly d d' s := by
  have held := holds_eq_some.mpr handle
  unfold DropsExactly
  cases effect with
  | destructedNull null => cases handle.symm.trans null
  | destructed handle' same =>
    cases handle.symm.trans handle'
    split
    · rename_i gone
      rw [inv.destruct_gone held gone] at same
      subst same
      exact ⟨rfl, rfl⟩
    · rename_i alive
      rw [inv.destruct_alive built held alive] at same
      subst same
      exact ⟨rfl, List.append_assoc ..⟩

/-- In every state of every run: nothing that must not happen has happened; while the
demuxer lives a subscriber is registered if and only if a handle holds it; whatever is in a list
has the type of the list, an id with a name, is there once, and is held by exactly one handle;
the destructor of a handle takes out its own subscriber and no other, and calls nothing if the
demuxer is gone. -/
theorem ownership (names : List String) (ids : IdManager) (built : IdManager.ofList names = some ids)
    (d : PacketDemuxer) (reach : (system ids).Reach d) :
    d.fault = false ∧
    (d.destructor ≠ .returned →
      ∀ s, (∃ i, d.handles i = some (some s)) ↔ some s ∈ d.subscribers.get s.type) ∧
    (∀ type ptr, ptr ∈ d.subscribers.get type → ∃ s, ptr = some s ∧ s.type = type ∧
      (∃ name, ids.toId name = some type) ∧ (d.subscribers.get type).count ptr = 1 ∧
      ∃! i, d.handles i = some (some s)) ∧
    (∀ i s d', d.handles i = some (some s) → step ids d (.destruct i) = some d' → DropsExactly d d' s) := by
  have inv := reach_ownInv built reach
  refine ⟨inv.sound, fun alive s => ⟨?_, ?_⟩, ?_, fun i s d' handle run => inv.drops built handle (step_effect run)⟩
  · rintro ⟨i, handle⟩
    exact inv.registered alive i s (holds_eq_some.mpr handle)
  · intro member
    obtain ⟨-, i, held⟩ := inv.typed member
    exact ⟨i, holds_eq_some.mp held⟩
  · intro type ptr member
    obtain ⟨s, i, same, typed, held⟩ := inv.held type ptr member
    refine ⟨s, same, typed, inv.issued type (List.ne_nil_of_mem member),
      List.count_eq_one_of_mem (inv.nodup type) member, i, holds_eq_some.mp held, ?_⟩
    intro j handle
    exact inv.unique j i s s (holds_eq_some.mpr handle) held rfl

/-- Two subscribers of one type, one of which changes its handle by a move onto the other's:
the handles hold them the other way round. -/
def swappedHandles : List DemuxerAction :=
  [.subscribe 0 "A", .subscribe 1 "A", .moveAssign 0 1, .construct 2, .moveAssign 2 0, .moveAssign 2 2]

theorem ownership_swapped : ∃ (ids : IdManager) (d : PacketDemuxer), IdManager.ofList ["A"] = some ids ∧
    [d.handles 0, d.handles 1, d.handles 2] = [some none, some (some ⟨0, 2⟩), some (some ⟨1, 2⟩)] ∧
    d.fault = false ∧
    (d.destructor ≠ .returned →
      ∀ s, (∃ i, d.handles i = some (some s)) ↔ some s ∈ d.subscribers.get s.type) ∧
    (∀ type ptr, ptr ∈ d.subscribers.get type → ∃ s, ptr = some s ∧ s.type = type ∧
      (∃ name, ids.toId name = some type) ∧ (d.subscribers.get type).count ptr = 1 ∧
      ∃! i, d.handles i = some (some s)) ∧
    (∀ i s d', d.handles i = some (some s) → step ids d (.destruct i) = some d' → DropsExactly d d' s) := by
  obtain ⟨ids, built, d, reach, seen⟩ : ∃ ids, IdManager.ofList ["A"] = some ids ∧ ∃ d, (system ids).Reach d ∧
      (fun d : PacketDemuxer => [d.handles 0, d.handles 1, d.handles 2]) d =
        [some none, some (some ⟨0, 2⟩), some (some ⟨1, 2⟩)] :=
    ⟨_, rfl, TransitionSystem.ReachUnder.start.computed _ swappedHandles (fun _ _ _ => trivial) (by decide)⟩
  exact ⟨ids, d, built, seen, ownership ["A"] ids built d reach⟩

end PacketDemuxer

end PacketComms
