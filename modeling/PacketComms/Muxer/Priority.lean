import PacketComms.Muxer.PassRun
import PacketComms.RoundTrip
import Mathlib.Data.List.TakeWhile

namespace PacketComms

/-- Packets of the control type come first, all of those that were queued. -/
def ControlAhead (queues : PacketType → List ComPacket) (sent : List ComPacket) : Prop :=
  (∃ p ∈ sent, p.type ≠ IdManager.controlPacket) → queues IdManager.controlPacket <+: sent

/-- The queues from which a pass in this order can send: those that hold packets, up to the one at which the assertion
of `sendPacket` fails. -/
def sendable (queues : PacketType → List ComPacket) (order : List PacketType) : List PacketType :=
  (order.filter (queues · ≠ [])).takeWhile (· ≠ IdManager.invalidPacket)

/-- Every packet is in the queue of its type. -/
def Typed (queues : PacketType → List ComPacket) : Prop := ∀ type, ∀ p ∈ queues type, p.type = type

theorem Typed.update {queues : PacketType → List ComPacket} (typed : Typed queues) {type : PacketType}
    {packets : List ComPacket} (sub : packets <:+ queues type) : Typed (Function.update queues type packets) := by
  intro other p member
  by_cases same : other = type
  · subst same
    rw [Function.update_self] at member
    exact typed other p (sub.subset member)
  · rw [Function.update_of_ne same] at member
    exact typed other p member

/-- The next step of the send thread is the range-for. -/
def SendPc.scans : SendPc → Bool
  | .scan => true
  | _ => false

theorem SendPc.scan_of_scans {pc : SendPc} (scans : pc.scans = true) : pc = .scan := by
  cases pc with
  | scan => rfl
  | _ => cases scans

namespace PacketMuxer

theorem sendable_cons_empty {queues : PacketType → List ComPacket} {type : PacketType} (empty : queues type = [])
    (types : List PacketType) : sendable queues (type :: types) = sendable queues types := by
  simp [sendable, empty]

theorem sendable_cons {queues : PacketType → List ComPacket} {type : PacketType} (nonempty : queues type ≠ [])
    (valid : type ≠ IdManager.invalidPacket) (types : List PacketType) :
    sendable queues (type :: types) = type :: sendable queues types := by
  simp [sendable, nonempty, valid]

theorem sendable_congr {queues queues' : PacketType → List ComPacket} {types : List PacketType}
    (same : ∀ type ∈ types, queues' type = queues type) : sendable queues' types = sendable queues types := by
  rw [sendable, sendable, List.filter_congr (fun type member => by rw [same type member])]

/-- The counter does not matter for what is sent. -/
theorem sendAll_numSent_add (transportError : Bool) (numSent k : UInt32) (packets : List ComPacket)
    (answers : List IoResult) :
    sendAll transportError (numSent + k) packets answers =
      { sendAll transportError numSent packets answers with
        numSent := (sendAll transportError numSent packets answers).numSent + k } := by
  induction packets generalizing transportError numSent answers with
  | nil => rfl
  | cons packet packets ih =>
    unfold sendAll
    split
    · rfl
    · have later : numSent + k + 1 = numSent + 1 + k := by
        rw [UInt32.add_assoc, UInt32.add_comm k, ← UInt32.add_assoc]
      dsimp only
      split
      · rw [later, ih]
      · rfl

/-- A pass looks only at the queues it visits. -/
theorem sendPass_congr {transportError : Bool} {numSent numSent' : UInt32}
    {queues queues' : PacketType → List ComPacket}
    {types : List PacketType} (same : ∀ type ∈ types, queues' type = queues type) (answers : List IoResult) :
    (sendPass transportError numSent' queues' types answers).sent =
      (sendPass transportError numSent queues types answers).sent := by
  induction types generalizing transportError numSent numSent' queues queues' answers with
  | nil => rfl
  | cons type types ih =>
    have here := same type List.mem_cons_self
    have counted : numSent' = numSent + (numSent' - numSent) := by rw [UInt32.add_comm, UInt32.sub_add_cancel]
    rw [counted]
    simp only [sendPass, here, sendAll_numSent_add]
    split
    · simp only [Passed.behind, List.append_cancel_left_eq]
      refine ih (fun other member => ?_) _
      by_cases last : other = type
      · subst last
        rw [Function.update_self, Function.update_self]
      · rw [Function.update_of_ne last, Function.update_of_ne last, same other (List.mem_cons_of_mem _ member)]
    · rfl

/-- Only the order of the queues from which it can send matters to a pass. -/
theorem sendPass_sendable {transportError : Bool} {numSent : UInt32} {queues : PacketType → List ComPacket}
    (typed : Typed queues) {types : List PacketType} (distinct : types.Nodup) (answers : List IoResult) :
    (sendPass transportError numSent queues types answers).sent =
      (sendPass transportError numSent queues (sendable queues types) answers).sent := by
  induction types generalizing transportError numSent queues answers with
  | nil => rfl
  | cons type types ih =>
    obtain ⟨out, distinct⟩ := List.nodup_cons.mp distinct
    cases transportError with
    | true => rw [sendPass_stopped, sendPass_stopped]
    | false =>
      cases queue : queues type with
      | nil =>
        rw [sendPass_empty queue, sendable_cons_empty queue]
        exact ih typed distinct answers
      | cons packet packets =>
        have own : packet.type = type := typed type packet (by rw [queue]; exact List.mem_cons_self)
        by_cases invalid : type = IdManager.invalidPacket
        · rw [sendPass_invalid queue (own.trans invalid)]
          have none : sendable queues (type :: types) = [] := by
            rw [sendable, List.filter_cons_of_pos (by simp [queue]), List.takeWhile_cons_of_neg (by simp [invalid])]
          rw [none]
          rfl
        · have nonempty : queues type ≠ [] := by rw [queue]; exact List.cons_ne_nil packet packets
          rw [sendable_cons nonempty invalid]
          simp only [sendPass]
          split
          · have left : Typed (Function.update queues type (sendAll false numSent (queues type) answers).packets) :=
              typed.update (sendAll_suffix _ _ _ _)
            have same : sendable (Function.update queues type (sendAll false numSent (queues type) answers).packets)
                types = sendable queues types :=
              sendable_congr (fun other member => Function.update_of_ne (ne_of_mem_of_not_mem member out) _ _)
            simp only [Passed.behind, List.append_cancel_left_eq]
            rw [ih left distinct, same]
          · rfl

/-- A transport that takes enough is sent all the queues, in the order of the pass. -/
theorem sendPass_enough (numSent : UInt32) {queues : PacketType → List ComPacket} {types : List PacketType}
    (valid : ∀ type ∈ types, ∀ p ∈ queues type, p.type ≠ IdManager.invalidPacket) (distinct : types.Nodup)
    {sizes : List Nat} (enough : (ComPacket.code.stream (types.flatMap queues)).length ≤ positives sizes) :
    (sendPass false numSent queues types (answersOf sizes)).sent = types.flatMap queues := by
  induction types generalizing numSent queues sizes with
  | nil => rfl
  | cons type types ih =>
    obtain ⟨out, distinct⟩ := List.nodup_cons.mp distinct
    rw [List.flatMap_cons, PrefixCode.stream_append, List.length_append] at enough
    obtain ⟨left, run, bound⟩ := sendAll_enough numSent (valid type List.mem_cons_self)
      (show (ComPacket.code.stream (queues type)).length ≤ positives sizes by omega)
    have same : ∀ other ∈ types, Function.update queues type [] other = queues other :=
      fun other member => Function.update_of_ne (ne_of_mem_of_not_mem member out) _ _
    simp only [sendPass, run, List.length_nil, Nat.sub_zero, List.take_length, List.flatMap_cons, Passed.behind,
      List.append_cancel_left_eq]
    have later := ih (numSent + UInt32.ofNat (queues type).length)
      (fun other member => valid other (List.mem_cons_of_mem _ member)) distinct
      (show (ComPacket.code.stream (types.flatMap queues)).length ≤ positives left by omega)
    rw [← later]
    exact sendPass_congr same (answersOf left)

/-- What was sent tells in which order the queues were visited. -/
theorem flatMap_injective {queues : PacketType → List ComPacket} (typed : Typed queues) {types types' : List PacketType}
    (nonempty : ∀ type ∈ types, queues type ≠ []) (nonempty' : ∀ type ∈ types', queues type ≠ [])
    (same : types.flatMap queues = types'.flatMap queues) : types = types' := by
  induction types generalizing types' with
  | nil =>
    cases types' with
    | nil => rfl
    | cons type types' =>
      obtain ⟨empty, -⟩ := List.append_eq_nil_iff.mp same.symm
      exact absurd empty (nonempty' type List.mem_cons_self)
  | cons type types ih =>
    obtain ⟨p, ps, queue⟩ := List.exists_cons_of_ne_nil (nonempty type List.mem_cons_self)
    cases types' with
    | nil =>
      obtain ⟨empty, -⟩ := List.append_eq_nil_iff.mp same
      exact absurd empty (nonempty type List.mem_cons_self)
    | cons type' types' =>
      obtain ⟨p', ps', queue'⟩ := List.exists_cons_of_ne_nil (nonempty' type' List.mem_cons_self)
      rw [List.flatMap_cons, List.flatMap_cons] at same
      have first : p = p' := by
        rw [queue, queue'] at same
        exact (List.cons.inj same).1
      have own : p.type = type := typed type p (by rw [queue]; exact List.mem_cons_self)
      have own' : p'.type = type' := typed type' p' (by rw [queue']; exact List.mem_cons_self)
      obtain rfl : type = type' := by rw [← own, ← own', first]
      rw [ih (fun other member => nonempty other (List.mem_cons_of_mem _ member))
        (fun other member => nonempty' other (List.mem_cons_of_mem _ member)) (List.append_cancel_left same)]

/-- The pass of the send thread in this order, on a transport that answers so. -/
def passOver (m : PacketMuxer) (order : List PacketType) (answers : List IoResult) : Passed :=
  sendPass m.transportError m.numSent m.queued order answers

/-- The queues from which the pass can send. With the error noted there is none. -/
def sendableIn (m : PacketMuxer) (order : List PacketType) : List PacketType :=
  if m.transportError then [] else sendable m.queued order

/-- Two passes send the same packets in the same order, control packets first, whatever the transport answers. -/
def FixedPriority (m m' : PacketMuxer) (order order' : List PacketType) : Prop :=
  ∀ answers, (m.passOver order answers).sent = (m'.passOver order' answers).sent ∧
    ControlAhead m.queued (m.passOver order answers).sent

theorem queued_typed {ids : IdManager} {m : PacketMuxer} (reach : (system ids).Reach m) : Typed m.queued := by
  obtain ⟨f, -, related⟩ := (refines_fifo ids _).reach reach
  intro type p member
  obtain ⟨packet, queued, rfl⟩ := List.mem_map.mp member
  exact related.typed queued

theorem passOver_sendableIn {m : PacketMuxer} (typed : Typed m.queued) {order : List PacketType}
    (distinct : order.Nodup) (answers : List IoResult) :
    (m.passOver order answers).sent = (sendPass false 0 m.queued (m.sendableIn order) answers).sent := by
  unfold passOver sendableIn
  cases m.transportError with
  | true =>
    rw [sendPass_stopped]
    rfl
  | false =>
    rw [sendPass_sendable typed distinct]
    exact sendPass_congr (fun _ _ => rfl) answers

/-- On a transport that takes everything, the pass empties these queues one after another. -/
theorem passOver_all {m : PacketMuxer} (typed : Typed m.queued) {order : List PacketType} (distinct : order.Nodup)
    {sizes : List Nat}
    (enough : (ComPacket.code.stream ((m.sendableIn order).flatMap m.queued)).length ≤ positives sizes) :
    (m.passOver order (answersOf sizes)).sent = (m.sendableIn order).flatMap m.queued := by
  rw [passOver_sendableIn typed distinct]
  refine sendPass_enough 0 ?_ ?_ enough
  · intro type member p queued
    rw [typed type p queued]
    unfold sendableIn at member
    split at member
    · cases member
    · simpa using List.mem_takeWhile_imp member
  · unfold sendableIn
    split
    · exact List.nodup_nil
    · exact (distinct.filter _).sublist (List.takeWhile_sublist _)

theorem sendableIn_nonempty {m : PacketMuxer} {order : List PacketType} {type : PacketType}
    (member : type ∈ m.sendableIn order) : m.queued type ≠ [] := by
  unfold sendableIn at member
  split at member
  · cases member
  · simpa using (List.mem_filter.mp ((List.takeWhile_sublist _).subset member)).2

/-- A pass leaves the queue it is at only when that is empty or the error is noted. -/
theorem sendAll_ends {numSent : UInt32} {transportError : Bool} {packets : List ComPacket} {answers : List IoResult}
    {ok : Bool} (returned : (sendAll transportError numSent packets answers).status = .returned ok) :
    (sendAll transportError numSent packets answers).packets = [] ∨
      (sendAll transportError numSent packets answers).transportError = true := by
  induction packets generalizing transportError numSent answers with
  | nil => exact Or.inl rfl
  | cons packet packets ih =>
    unfold sendAll at returned ⊢
    split at returned
    · rename_i flag
      rw [if_pos flag]
      exact Or.inr flag
    · rename_i flag
      rw [if_neg flag]
      dsimp only at returned ⊢
      split at returned
      · rename_i ok' sent
        exact ih returned
      · rename_i status other
        exact absurd returned (other ok)

/-- If the control packets are first in the order, all of them go ahead. -/
theorem controlAhead_first (numSent : UInt32) (queues : PacketType → List ComPacket) (types : List PacketType)
    (answers : List IoResult) (typed : Typed queues) :
    ControlAhead queues (sendPass false numSent queues (IdManager.controlPacket :: types) answers).sent := by
  rintro ⟨p, member, user⟩
  have control : ∀ q ∈ queues IdManager.controlPacket, q.type = IdManager.controlPacket := typed IdManager.controlPacket
  simp only [sendPass] at member ⊢
  split at member
  · rename_i ok returned
    rcases sendAll_ends returned with empty | flag
    · rw [empty, List.length_nil, Nat.sub_zero, List.take_length]
      exact List.prefix_append _ _
    · simp only [flag, sendPass_stopped, Passed.behind, List.append_nil] at member
      exact absurd (control p (List.mem_of_mem_take member)) user
  · exact absurd (control p (List.mem_of_mem_take member)) user

/-- Two histories that leave the same packets in the queues: the next passes send the same packets in the same order,
control packets first, exactly if the iterations visit the queues from which can be sent in the same order, that of
the control packets first. -/
theorem fixed_priority_iff (ids : IdManager) (m m' : PacketMuxer) (reach : (system ids).Reach m)
    (reach' : (system ids).Reach m') (same : m'.queued = m.queued) (order order' : List PacketType)
    (perm : order.Perm m.txQueues.keys) (perm' : order'.Perm m'.txQueues.keys) :
    FixedPriority m m' order order' ↔ m.sendableIn order = m'.sendableIn order' ∧
      (m.queued IdManager.controlPacket ≠ [] →
        ∀ type ∈ (m.sendableIn order).head?, type = IdManager.controlPacket) := by
  have typed := queued_typed reach
  have typed' := queued_typed reach'
  have distinct : order.Nodup := perm.nodup_iff.mpr m.txQueues.nodup
  have distinct' : order'.Nodup := perm'.nodup_iff.mpr m'.txQueues.nodup
  constructor
  · intro fixed
    let bytes := ComPacket.code.stream ((m.sendableIn order).flatMap m.queued)
    let bytes' := ComPacket.code.stream ((m'.sendableIn order').flatMap m'.queued)
    let sizes := List.replicate (bytes.length + bytes'.length) 1
    have count : positives sizes = bytes.length + bytes'.length := by simp [positives, sizes, List.countP_replicate]
    have enough : bytes.length ≤ positives sizes := by omega
    have enough' : bytes'.length ≤ positives sizes := by omega
    obtain ⟨equal, ahead⟩ := fixed (answersOf sizes)
    rw [passOver_all typed distinct enough] at equal ahead
    rw [passOver_all typed' distinct' enough', same] at equal
    refine ⟨flatMap_injective typed (fun type => sendableIn_nonempty)
      (fun type member => same ▸ sendableIn_nonempty member) equal, fun queued type first => ?_⟩
    by_contra user
    obtain ⟨types, visited⟩ := List.head?_eq_some_iff.mp first
    have member : type ∈ m.sendableIn order := by rw [visited]; exact List.mem_cons_self
    obtain ⟨p, ps, queue⟩ := List.exists_cons_of_ne_nil (sendableIn_nonempty member)
    obtain ⟨c, cs, control⟩ := List.exists_cons_of_ne_nil queued
    have own : p.type = type := typed type p (by rw [queue]; exact List.mem_cons_self)
    have sent : (m.sendableIn order).flatMap m.queued = p :: (ps ++ types.flatMap m.queued) := by
      rw [visited, List.flatMap_cons, queue, List.cons_append]
    rw [sent] at ahead
    obtain ⟨rest, begins⟩ := ahead ⟨p, List.mem_cons_self, fun eq => user (own ▸ eq)⟩
    rw [control, List.cons_append, List.cons.injEq] at begins
    have ownControl : c.type = IdManager.controlPacket :=
      typed IdManager.controlPacket c (by rw [control]; exact List.mem_cons_self)
    exact user (by rw [← own, ← begins.1, ownControl])
  · rintro ⟨visits, first⟩ answers
    rw [passOver_sendableIn typed distinct, passOver_sendableIn typed' distinct', ← visits, same]
    refine ⟨rfl, ?_⟩
    by_cases none : m.queued IdManager.controlPacket = []
    · intro _
      rw [none]
      exact List.nil_prefix
    · cases visited : m.sendableIn order with
      | nil =>
        rintro ⟨p, member, -⟩
        cases member
      | cons type types =>
        obtain rfl : type = IdManager.controlPacket := first none type (by rw [visited]; rfl)
        exact controlAhead_first 0 m.queued types answers typed

/-- A call of `emplacePacket` that meets no other. -/
def postActions (name : String) (data : List Byte) : List MuxerAction :=
  .post 0 name (.moved data) :: List.replicate 4 (.user 0 true)

/-- Two packets of the program and the hello of the send thread, which has come to its first pass. -/
def twoPosts (first second : String × List Byte) : List MuxerAction :=
  postActions first.1 first.2 ++ postActions second.1 second.2 ++ List.replicate 9 .send

/-- The queues after `twoPosts`, whichever of the two packets was first. -/
def twoQueues (type : PacketType) : List ComPacket :=
  if type = 2 then [⟨2, [7]⟩] else if type = 3 then [⟨3, [8]⟩] else
    if type = 1 then [ControlMessage.hello.packet] else []

theorem queued_twoQueues {m : PacketMuxer} (keys : ∀ type, type ∈ m.txQueues.keys ↔ type = 2 ∨ type = 3 ∨ type = 1)
    (first : m.queued 2 = twoQueues 2) (second : m.queued 3 = twoQueues 3) (control : m.queued 1 = twoQueues 1) :
    m.queued = twoQueues := by
  funext type
  by_cases key : type ∈ m.txQueues.keys
  · rcases (keys type).mp key with rfl | rfl | rfl
    · exact first
    · exact second
    · exact control
  · have other : ¬ (type = 2 ∨ type = 3 ∨ type = 1) := fun one => key ((keys type).mpr one)
    simp only [not_or] at other
    simp [queued, twoQueues, m.txQueues.absent type key, other]

/-- The same packets posted in two orders: the queues are equal, the order of their keys is not. -/
theorem two_histories : ∃ ids, IdManager.ofList ["A", "B"] = some ids ∧
    ∃ m m', (system ids).Reach m ∧ (system ids).Reach m' ∧ m.queued = twoQueues ∧ m'.queued = twoQueues ∧
      m.txQueues.keys = [2, 3, 1] ∧ m'.txQueues.keys = [3, 2, 1] ∧ m.transportError = false ∧
      m'.transportError = false ∧ m.send = .scan ∧ m'.send = .scan := by
  let shown (m : PacketMuxer) := (m.txQueues.keys, [2, 3, 1].map m.queued, m.transportError, m.send.scans)
  obtain ⟨ids, built, ⟨m, reach, seen⟩, m', reach', seen'⟩ : ∃ ids, IdManager.ofList ["A", "B"] = some ids ∧
      (∃ m, (system ids).Reach m ∧ shown m = ([2, 3, 1], [2, 3, 1].map twoQueues, false, true)) ∧
      ∃ m, (system ids).Reach m ∧ shown m = ([3, 2, 1], [2, 3, 1].map twoQueues, false, true) :=
    ⟨_, rfl, TransitionSystem.ReachUnder.start.computed shown (twoPosts ("A", [7]) ("B", [8])) (fun _ _ _ => trivial)
        (by decide),
      TransitionSystem.ReachUnder.start.computed shown (twoPosts ("B", [8]) ("A", [7])) (fun _ _ _ => trivial)
        (by decide)⟩
  simp only [shown, Prod.mk.injEq, List.map_cons, List.cons.injEq] at seen seen'
  obtain ⟨keys, ⟨first, second, control, -⟩, flag, scans⟩ := seen
  obtain ⟨keys', ⟨first', second', control', -⟩, flag', scans'⟩ := seen'
  have queues := queued_twoQueues (m := m) (by simp [keys]) first second control
  have queues' := queued_twoQueues (m := m') (by simp [keys']; grind) first' second' control'
  exact ⟨ids, built, m, m', reach, reach', queues, queues', keys, keys', flag, flag', SendPc.scan_of_scans scans,
    SendPc.scan_of_scans scans'⟩

theorem fixed_priority_fails : ¬ ∀ (names : List String) (ids : IdManager) (m m' : PacketMuxer)
    (order order' : List PacketType), IdManager.ofList names = some ids → (system ids).Reach m → (system ids).Reach m' →
    m.send = .scan → m'.send = .scan → m'.queued = m.queued → order.Perm m.txQueues.keys →
    order'.Perm m'.txQueues.keys → FixedPriority m m' order order' := by
  intro all
  obtain ⟨ids, built, m, m', reach, reach', queues, queues', keys, keys', flag, flag', scan, scan'⟩ := two_histories
  have fixed := all ["A", "B"] ids m m' [2, 3, 1] [3, 2, 1] built reach reach' scan scan' (by rw [queues, queues'])
    (by rw [keys]) (by rw [keys'])
  let answers : List IoResult := List.replicate 9 (.count 100)
  obtain ⟨same, -⟩ := fixed answers
  have sent : (m.passOver [2, 3, 1] answers).sent = (sendPass false 0 twoQueues [2, 3, 1] answers).sent := by
    rw [passOver, flag, queues]
    exact sendPass_congr (fun _ _ => rfl) answers
  have sent' : (m'.passOver [3, 2, 1] answers).sent = (sendPass false 0 twoQueues [3, 2, 1] answers).sent := by
    rw [passOver, flag', queues']
    exact sendPass_congr (fun _ _ => rfl) answers
  have differ :
      (sendPass false 0 twoQueues [2, 3, 1] answers).sent ≠ (sendPass false 0 twoQueues [3, 2, 1] answers).sent := by
    decide
  exact differ (by rw [← sent, ← sent', same])

/-- The iterations agree on where to begin, with the control packets. -/
theorem fixed_priority_iff_two : ∃ ids, IdManager.ofList ["A", "B"] = some ids ∧
    ∃ m m', (system ids).Reach m ∧ (system ids).Reach m' ∧ m.txQueues.keys ≠ m'.txQueues.keys ∧
      (FixedPriority m m' [1, 2, 3] [1, 2, 3] ↔ m.sendableIn [1, 2, 3] = m'.sendableIn [1, 2, 3] ∧
        (m.queued IdManager.controlPacket ≠ [] →
          ∀ type ∈ (m.sendableIn [1, 2, 3]).head?, type = IdManager.controlPacket)) := by
  obtain ⟨ids, built, m, m', reach, reach', queues, queues', keys, keys', -⟩ := two_histories
  exact ⟨ids, built, m, m', reach, reach', by rw [keys, keys']; decide,
    fixed_priority_iff ids m m' reach reach' (by rw [queues, queues']) [1, 2, 3] [1, 2, 3] (by rw [keys]; decide)
      (by rw [keys']; decide)⟩

end PacketMuxer

end PacketComms
