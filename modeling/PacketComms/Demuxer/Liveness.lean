import PacketComms.Demuxer.Fairness

namespace PacketComms

/-- A field that has not been read completely leaves its frame incomplete. -/
theorem Field.incomplete {field : Field} {total : Nat} {buffer : List Byte} (fits : field.Fits total)
    (missing : buffer.length < total) {p : ComPacket} (small : p.data.length < 2 ^ 32) :
    ¬ p.frame <+: field.before total ++ buffer := by
  intro begins
  have length := begins.length_le
  rw [ComPacket.frame_length, List.length_append] at length
  cases field with
  | type =>
    have four : total = 4 := fits
    simp only [Field.before, List.length_nil] at length
    omega
  | size header =>
    obtain ⟨four, four'⟩ := fits
    simp only [Field.before] at length
    omega
  | payload type =>
    have bound : total < 2 ^ 31 := fits
    simp only [Field.before, List.length_append, htonl_length] at length
    obtain ⟨rest, whole⟩ := begins
    simp only [ComPacket.frame_eq, Field.before, List.append_assoc] at whole
    obtain ⟨-, whole⟩ := List.append_inj whole rfl
    obtain ⟨sizes, -⟩ := List.append_inj whole rfl
    have same := congrArg UInt32.toNat (htonl_injective sizes)
    rw [ComPacket.sizeField_toNat small, UInt32.toNat_ofNat', Nat.mod_eq_of_lt (by omega)] at same
    omega

namespace PacketDemuxer

section Alive

variable {ids : IdManager} {C : PacketDemuxer → DemuxerAction → Prop} {d d' : PacketDemuxer}

/-- What has arrived is sound. -/
def SoundInv (d : PacketDemuxer) : Prop :=
  SoundHeaders d.arrived ∧ ¬ BeginsWith d.arrived ⟨IdManager.controlPacket, []⟩

theorem reach_soundInv (peer : ∀ d action, C d action → SoundPeer d action) (reach : (system ids).ReachUnder C d) :
    SoundInv d := by
  have none : ∀ p ∈ ([] : List ComPacket), p.Receivable := by simp
  refine reach.invariant ⟨SoundHeaders.of_frames none List.prefix_rfl, ?_⟩ ?_
  · rintro ⟨-, -, begins⟩
    have length := begins.length_le
    simp [system] at length
  · intro s a s' _ inv met run
    rcases (step_effect run).arrived_cases with ⟨bytes, rfl, arrived⟩ | same
    · have sound := peer _ _ met
      rw [SoundInv, arrived]
      exact sound
    · rwa [SoundInv, same]

/-- Over such a stream no assertion fails, and nothing throws. -/
theorem Effect.alive {action : DemuxerAction} (read : ReadInv d) (handled : HandledInv d) (sound : SoundInv d)
    (alive : d.receive ≠ .aborted) (effect : Effect ids d action d') : d'.receive ≠ .aborted := by
  cases effect with
  | unknown | arrived | subscribed | constructed | moveConstructed | moveAssigned | destructedNull | destroys | warned
  | joined => exact alive
  | destructed _ same =>
    subst same
    split
    · simpa using alive
    · exact alive
  | @threw caller type buffer size at_pc flag failed =>
    obtain ⟨-, bound⟩ := sound.1 d.received _ _ read.valid (read.header at_pc flag)
    rw [ComPacket.ofSize_eq, if_pos bound] at failed
    cases failed
  | @asserted caller type buffer size at_pc flag invalid =>
    obtain ⟨-, whole⟩ := read.frame at_pc flag
    obtain ⟨valid, -⟩ := sound.1 d.received type (ComPacket.sizeField ⟨type, buffer⟩) read.valid ⟨buffer ++ d.input, by
      rw [← whole]
      simp [ComPacket.code, ComPacket.frame_eq]⟩
    exact absurd invalid valid
  | @crashed packet at_pc empty =>
    have received := handled.received_eq (by rw [at_pc]; trivial)
    have begins := read.beginsWith List.prefix_rfl (by rw [received, at_pc]; rfl)
    exact absurd (empty ▸ begins) sound.2
  | @received caller => cases caller <;> simp
  | readied | timedOut | reads | leaves | failed | got | refused | typed | sized | greeted | rejected
  | continues | exits
  | handled | dispatched => simp

theorem reach_alive (peer : ∀ d action, C d action → SoundPeer d action) (reach : (system ids).ReachUnder C d) :
    d.receive ≠ .aborted := by
  refine reach.invariant (I := fun d => d.receive ≠ .aborted) (by simp [system]) ?_
  intro s a s' before inv met run
  exact (step_effect run).alive (reach_readInv before) (reach_handledInv before) (reach_soundInv peer before) inv

end Alive

section Missing

variable {d : PacketDemuxer} {packets : List ComPacket}

/-- These packets have arrived completely, and not all of them have been dealt with. -/
structure Due (packets : List ComPacket) (d : PacketDemuxer) : Prop where
  arrived : ComPacket.code.stream packets <+: d.arrived
  undealt : ¬ packets <+: dealtWith d.log

theorem ReadInv.domain (read : ReadInv d) : ∀ p ∈ d.received, ComPacket.code.domain p := by
  intro p member
  have bound := (read.valid p member).2
  change p.data.length < 2 ^ 32
  omega

/-- They are more than those dealt with. -/
theorem Due.more (due : Due packets d) (small : ∀ p ∈ packets, p.data.length < 2 ^ 32) (read : ReadInv d)
    (handled : HandledInv d) : (dealtWith d.log).length < packets.length := by
  have dealt : ComPacket.code.stream (dealtWith d.log) <+: d.arrived :=
    (ComPacket.code.stream_prefix handled.sub).trans read.sub
  have known : ∀ p ∈ dealtWith d.log, ComPacket.code.domain p :=
    fun p member => read.domain p (handled.sub.subset member)
  have behind := (ComPacket.code.prefix_or_prefix small known due.arrived dealt).resolve_left due.undealt
  rcases Nat.lt_or_eq_of_le behind.length_le with less | same
  · exact less
  · exact absurd (behind.eq_of_length same ▸ List.prefix_rfl) due.undealt

/-- A thread with no packet in hand that waits for the transport finds something to read. -/
theorem Due.some_input (due : Due packets d) (small : ∀ p ∈ packets, p.data.length < 2 ^ 32) (read : ReadInv d)
    (handled : HandledInv d) (hand : d.receive.inHand = []) (alive : d.receive ≠ .aborted)
    (waits : d.Between ∨ ∃ field buffer size, d.receive.reading = some (field, buffer, size) ∧ 0 < size) :
    d.input ≠ [] := by
  intro empty
  have all := handled.all alive
  rw [hand, List.append_nil] at all
  have undealt := due.undealt
  rw [all] at undealt
  have arrived := due.arrived
  rcases waits with between | ⟨field, buffer, size, reading, missing⟩
  · have whole := read.between between
    rw [empty, List.append_nil] at whole
    rw [← whole] at arrived
    exact undealt (ComPacket.code.prefix_of_stream_prefix small read.domain arrived)
  · obtain ⟨fits, whole⟩ := read.reading field buffer size reading
    rw [empty, List.append_nil] at whole
    rw [← whole] at arrived
    rcases ComPacket.code.prefix_or_begins read.domain small arrived with within | ⟨p, member, begins⟩
    · exact undealt within
    · exact Field.incomplete fits (by omega) (small p member) begins

end Missing

section Runs

variable {ids : IdManager} {C : PacketDemuxer → DemuxerAction → Prop} {e : (system ids).Execution C}

/-- Where the thread has no choice, it goes on. -/
theorem receive_leads (live : Live C) (fair : FairThreads e) (here there : ReceivePc → Prop)
    (settled : ∀ d, here d.receive → ∃ d', step ids d .receive = some d')
    (goes : ∀ d a d', here d.receive → Effect ids d a d' → ReceiveThread d a →
      d'.transportError = true ∨ there d'.receive) :
    e.LeadsTo (fun d => here d.receive) (fun d => d.transportError = true ∨ there d.receive) := by
  refine .once fair.receive ?_ (fun d a d' _ now _ turn run => goes d a d' now (step_effect run) turn) ?_
  · intro d a d' _ now _ run
    by_cases turn : ReceiveThread d a
    · exact Or.inl (goes d a d' now (step_effect run) turn)
    · rw [((step_effect run).stands turn).1]
      exact Or.inr now
  · intro n stays
    obtain ⟨d', run⟩ := settled _ (stays n (Nat.le_refl n)).1
    exact ⟨n, Nat.le_refl n, .receive, d', live.receive _, rfl, run⟩

/-- The loop comes back to its wait. -/
theorem loop_waits (live : Live C) (fair : FairThreads e) : e.LeadsTo (fun d => d.receive = .loop)
    (fun d => d.transportError = true ∨ d.receive = .ready .receiveLoop) := by
  refine receive_leads live fair (· = .loop) (· = .ready .receiveLoop)
    (fun d at_pc => receive_exists ids d (by rw [at_pc]; trivial)) ?_
  intro d a d' at_pc effect turn
  cases effect with
  | continues => exact Or.inr rfl
  | exits _ flag => exact Or.inl flag
  | unknown | arrived | subscribed | constructed | moveConstructed | moveAssigned | destructedNull | destructed
  | destroys | warned | joined => cases turn
  | _ => simp_all

/-- `readBytes` comes to its next read. -/
theorem test_reads (live : Live C) (fair : FairThreads e) :
    e.LeadsTo (fun d => ∃ caller field buffer size, d.receive = .test caller field buffer size ∧ 0 < size)
      (fun d => d.transportError = true ∨ ∃ caller field buffer size, d.receive = .read caller field buffer size) := by
  refine receive_leads live fair (fun pc => ∃ caller field buffer size, pc = .test caller field buffer size ∧ 0 < size)
    (fun pc => ∃ caller field buffer size, pc = .read caller field buffer size) ?_ ?_
  · rintro d ⟨caller, field, buffer, size, at_pc, -⟩
    exact receive_exists ids d (by rw [at_pc]; trivial)
  · rintro d a d' ⟨caller, field, buffer, size, at_pc, more⟩ effect turn
    cases effect with
    | reads => exact Or.inr ⟨_, _, _, _, rfl⟩
    | leaves at_pc' done =>
      rw [at_pc] at at_pc'
      cases at_pc'
      exact Or.inl (done.resolve_left (by omega))
    | unknown | arrived | subscribed | constructed | moveConstructed | moveAssigned | destructedNull | destructed
    | destroys | warned | joined => cases turn
    | _ => simp_all

/-- A step deals with the last of the packets, or they are still due and not further away. -/
theorem Effect.due {packets : List ComPacket} (small : ∀ p ∈ packets, p.data.length < 2 ^ 32) {d d' : PacketDemuxer}
    {action : DemuxerAction} (reach : (system ids).ReachUnder C d) (effect : Effect ids d action d')
    (now : d.transportError = false ∧ Due packets d) : (d'.transportError = true ∨ packets <+: dealtWith d'.log) ∨
      (d'.transportError = false ∧ Due packets d') ∧ d'.distance packets ≤ d.distance packets ∧
      ((helper (d.distance packets)).Steps d action → d'.distance packets < d.distance packets) := by
  obtain ⟨flag, due⟩ := now
  have arrived : ComPacket.code.stream packets <+: d'.arrived := by
    rcases effect.arrived_cases with ⟨bytes, -, grown⟩ | same
    · exact due.arrived.trans (grown ▸ List.prefix_append _ _)
    · exact same ▸ due.arrived
  by_cases noted : d'.transportError = true
  · exact Or.inl (Or.inl noted)
  · by_cases dealt : packets <+: dealtWith d'.log
    · exact Or.inl (Or.inr dealt)
    · refine Or.inr ⟨⟨by simpa using noted, arrived, dealt⟩, ?_⟩
      by_cases turn : ReceiveThread d action
      · have more := due.more small (reach_readInv reach) (reach_handledInv reach)
        exact (effect.nears more flag turn).resolve_left noted
      · obtain ⟨receive, log⟩ := effect.stands turn
        refine ⟨by rw [distance, receive, log, distance], fun helps => absurd ?_ turn⟩
        cases kind : helper (d.distance packets) with
        | thread => rwa [kind] at helps
        | notices =>
          rw [kind] at helps
          obtain ⟨-, rfl⟩ := helps
          rfl
        | reads =>
          rw [kind] at helps
          obtain ⟨n, -, rfl⟩ := helps
          rfl

/-- As long as nothing brings the thread nearer, a step that does becomes possible again. -/
theorem Due.enabled (live : Live C) (peer : ∀ d action, C d action → SoundPeer d action) (fair : FairThreads e)
    {packets : List ComPacket} (small : ∀ p ∈ packets, p.data.length < 2 ^ 32) {n : Nat}
    (stays : ∀ m, n ≤ m → ((e.state m).transportError = false ∧ Due packets (e.state m)) ∧
      ((e.state m).distance packets = (e.state n).distance packets)) :
    ∃ m, n ≤ m ∧ (system ids).Enabled C (helper ((e.state n).distance packets)).Steps (e.state m) := by
  have input {m : Nat} (later : n ≤ m) (hand : (e.state m).receive.inHand = []) (waits : (e.state m).Between ∨
      ∃ field buffer size, (e.state m).receive.reading = some (field, buffer, size) ∧ 0 < size) :
      (e.state m).input ≠ [] :=
    (stays m later).1.2.some_input small (reach_readInv (e.reach m)) (reach_handledInv (e.reach m)) hand
      (reach_alive peer (e.reach m)) waits
  have noticed {m : Nat} (later : n ≤ m) {caller : Caller} (at_pc : (e.state m).receive = .ready caller) :
      (system ids).Enabled C Notices (e.state m) := by
    have some := input later (by rw [at_pc]; rfl) (Or.inl (by simp [Between, at_pc]))
    exact ⟨.ready true, _, live.ready _, ⟨some, rfl⟩, by simp [system, step, at_pc]; rfl⟩
  have got {m : Nat} (later : n ≤ m) {caller : Caller} {field : Field} {buffer : List Byte} {size : Nat}
      (at_pc : (e.state m).receive = .read caller field buffer size) : (system ids).Enabled C Reads (e.state m) := by
    have missing := (reach_threadInv (e.reach m)).missing _ _ _ _ at_pc
    have some := List.length_pos_of_ne_nil
      (input later (by rw [at_pc]; rfl) (Or.inr ⟨field, buffer, size, by rw [at_pc]; rfl, missing⟩))
    have bound : 1 ≤ size ∧ 1 ≤ (e.state m).input.length := ⟨missing, some⟩
    exact ⟨.read (.count 1), _, live.read _, ⟨1, Nat.one_pos, rfl⟩, by simp [system, step, at_pc, bound]; rfl⟩
  have goes : (∃ d', step ids (e.state n) .receive = some d') → (system ids).Enabled C ReceiveThread (e.state n) := by
    rintro ⟨d', run⟩
    exact ⟨.receive, d', live.receive _, rfl, run⟩
  cases at_pc : (e.state n).receive with
  | loop =>
    have kind : helper ((e.state n).distance packets) = .notices := by simp [distance, at_pc, ReceivePc.stage]
    obtain ⟨m, later, noted | ready⟩ := loop_waits live fair n at_pc
    · rw [(stays m later).1.1] at noted
      cases noted
    · exact ⟨m, later, kind ▸ noticed later ready⟩
  | ready caller =>
    have kind : helper ((e.state n).distance packets) = .notices := by simp [distance, at_pc, ReceivePc.stage]
    exact ⟨n, Nat.le_refl n, kind ▸ noticed (Nat.le_refl n) at_pc⟩
  | test caller field buffer size =>
    rcases Nat.eq_zero_or_pos size with rfl | missing
    · have kind : helper ((e.state n).distance packets) = .thread := by
        simp [distance, at_pc, ReceivePc.stage, field.stage_ne]
      exact ⟨n, Nat.le_refl n, kind ▸ goes (receive_exists ids _ (by rw [at_pc]; trivial))⟩
    · have kind : helper ((e.state n).distance packets) = .reads := by
        simp [distance, at_pc, ReceivePc.stage, field.stage_ne, Nat.ne_of_gt missing]
      obtain ⟨m, later, noted | ⟨caller', field', buffer', size', reading⟩⟩ :=
        test_reads live fair n ⟨caller, field, buffer, size, at_pc, missing⟩
      · rw [(stays m later).1.1] at noted
        cases noted
      · exact ⟨m, later, kind ▸ got later reading⟩
  | read caller field buffer size =>
    have kind : helper ((e.state n).distance packets) = .reads := by
      simp [distance, at_pc, ReceivePc.stage, field.stage_ne]
    exact ⟨n, Nat.le_refl n, kind ▸ got (Nat.le_refl n) at_pc⟩
  | check caller field =>
    have kind : helper ((e.state n).distance packets) = .thread := by
      simp [distance, at_pc, ReceivePc.stage, field.stage_ne]
    exact ⟨n, Nat.le_refl n, kind ▸ goes (receive_exists ids _ (by rw [at_pc]; trivial))⟩
  | greet | dispatch =>
    have kind : helper ((e.state n).distance packets) = .thread := by simp [distance, at_pc, ReceivePc.stage]
    exact ⟨n, Nat.le_refl n, kind ▸ goes (receive_exists ids _ (by rw [at_pc]; trivial))⟩
  | exited =>
    have noted := (reach_threadInv (e.reach n)).exited at_pc
    rw [(stays n (Nat.le_refl n)).1.1] at noted
    cases noted
  | aborted => exact absurd at_pc (reach_alive peer (e.reach n))

theorem due_dealt (live : Live C) (peer : ∀ d action, C d action → SoundPeer d action) (fair : FairThreads e)
    {packets : List ComPacket} (small : ∀ p ∈ packets, p.data.length < 2 ^ 32) :
    e.LeadsTo (fun d => d.transportError = false ∧ Due packets d)
      (fun d => d.transportError = true ∨ packets <+: dealtWith d.log) := by
  refine .descend Helper.Steps (fun | .thread => fair.receive | .notices => fair.notices | .reads => fair.reads)
    (distance packets) helper ?_ ?_ ?_
  · intro d a d' reach now met run
    exact ((step_effect run).due small reach now).imp id (fun ⟨still, near, _⟩ => ⟨still, near⟩)
  · intro d a d' reach now met helps run
    exact ((step_effect run).due small reach now).imp id (fun ⟨still, _, nearer⟩ => ⟨still, nearer helps⟩)
  · exact fun n stays => Due.enabled live peer fair small (fun m later => ⟨(stays m later).1, (stays m later).2.2⟩)

theorem arrived_due {packets : List ComPacket} {d : PacketDemuxer}
    (arrived : ComPacket.code.stream packets <+: d.arrived) :
    (d.transportError = false ∧ Due packets d) ∨ d.transportError = true ∨ packets <+: dealtWith d.log := by
  by_cases dealt : packets <+: dealtWith d.log
  · exact Or.inr (Or.inr dealt)
  · cases flag : d.transportError with
    | true => exact Or.inr (Or.inl rfl)
    | false => exact Or.inl ⟨rfl, arrived, dealt⟩

/-- A demuxer that is gone holds no thread up. -/
theorem fair_gone {actions : List DemuxerAction} {d : PacketDemuxer}
    (met : TransitionSystem.Execution.Meets (system ids) C (system ids).start actions)
    (run : (system ids).run (system ids).start actions = some d) (exited : d.receive = .exited)
    (gone : d.destructor = .returned) :
    FairThreads (TransitionSystem.Execution.ofRun (system ids) actions met run) := by
  have stuck {action : DemuxerAction} {d' : PacketDemuxer} (own : ReceiveThread d action) :
      (system ids).step d action ≠ some d' := by
    intro step
    cases step_effect step with
    | unknown | arrived | subscribed | constructed | moveConstructed | moveAssigned | destructedNull | destructed
    | destroys | warned | joined => cases own
    | _ => simp_all
  open TransitionSystem.Execution in
  refine ⟨fair_ofRun ?_, fair_ofRun ?_, fair_ofRun ?_, fair_ofRun ?_⟩
  · rintro ⟨a, d', -, own, step⟩
    exact stuck own step
  · rintro ⟨a, d', -, ⟨-, rfl⟩, step⟩
    exact stuck (by rfl) step
  · rintro ⟨a, d', -, ⟨n, -, rfl⟩, step⟩
    exact stuck (by rfl) step
  · rintro ⟨a, d', -, ⟨-, rfl⟩, step⟩
    cases step_effect step with
    | destroys at_pc | warned at_pc | joined at_pc =>
      rw [gone] at at_pc
      cases at_pc

end Runs

/-- The receiver is live. Over a transport that gives the bytes it has sooner or later, packets whose frames have
arrived are dealt with, or an error is noted. -/
theorem frames_dealt_with (ids : IdManager) (C : PacketDemuxer → DemuxerAction → Prop) (live : Live C)
    (peer : ∀ d action, C d action → SoundPeer d action) (e : (system ids).Execution C) (fair : FairThreads e)
    (packets : List ComPacket) (small : ∀ p ∈ packets, p.data.length < 2 ^ 32) :
    e.LeadsTo (fun d => ComPacket.code.stream packets <+: d.arrived)
      (fun d => d.transportError = true ∨ packets <+: dealtWith d.log) :=
  .cases (due_dealt live peer fair small) (.of_imp (fun _ _ => id)) (fun _ _ => arrived_due)

/-- A Hello message and a packet are received, and the demuxer is destroyed. -/
def receivesAndLeaves : List DemuxerAction :=
  .arrive (ComPacket.code.stream [ControlMessage.hello.packet, ⟨2, [7]⟩]) ::
    (frameActions ControlMessage.hello.packet ++ [.receive, .receive] ++ frameActions ⟨2, [7]⟩ ++
      [.receive, .destroy, .destroy, .receive, .destroy])

theorem receivesAndLeaves_met (ids : IdManager) :
    TransitionSystem.Execution.Meets (system ids) SoundPeer (system ids).start receivesAndLeaves := by
  have valid : ∀ p ∈ [ControlMessage.hello.packet, ⟨2, [7]⟩], p.Receivable := by
    simp [ComPacket.Receivable, ControlMessage.packet, IdManager.controlPacket, IdManager.invalidPacket]
  refine ⟨⟨SoundHeaders.of_frames valid List.prefix_rfl, ?_⟩, fun d _ => .of_forall (fun action member d => ?_) d⟩
  · intro begins
    have hello :
        BeginsWith (ComPacket.code.stream [ControlMessage.hello.packet, ⟨2, [7]⟩]) ControlMessage.hello.packet :=
      ⟨by decide, by decide, List.prefix_append _ _⟩
    cases BeginsWith.unique begins hello
  · cases action with
    | arrive bytes => simp [frameActions, readActions, ControlMessage.packet] at member
    | _ => trivial

theorem live_soundPeer : Live SoundPeer :=
  ⟨fun _ => trivial, fun _ => trivial, fun _ => trivial, fun _ => trivial, fun _ _ => trivial⟩

theorem frames_dealt_with_two : ∃ (ids : IdManager) (e : (system ids).Execution SoundPeer),
    (∃ n, ComPacket.code.stream [ControlMessage.hello.packet, ⟨2, [7]⟩] <+: (e.state n).arrived) ∧
    e.LeadsTo (fun d => ComPacket.code.stream [ControlMessage.hello.packet, ⟨2, [7]⟩] <+: d.arrived)
      (fun d => d.transportError = true ∨ [ControlMessage.hello.packet, ⟨2, [7]⟩] <+: dealtWith d.log) := by
  obtain ⟨d, run, exited, gone, arrived⟩ : ∃ d, (system IdManager.reserved).run (system IdManager.reserved).start
      receivesAndLeaves = some d ∧ d.receive = .exited ∧ d.destructor = .returned ∧
      d.arrived = ComPacket.code.stream [ControlMessage.hello.packet, ⟨2, [7]⟩] := ⟨_, rfl, rfl, rfl, rfl⟩
  have fair := fair_gone (receivesAndLeaves_met IdManager.reserved) run exited gone
  refine ⟨IdManager.reserved, _, ⟨receivesAndLeaves.length, ?_⟩,
    frames_dealt_with IdManager.reserved SoundPeer live_soundPeer (fun _ _ => id) _ fair _ (by decide)⟩
  rw [TransitionSystem.Execution.ofRun_last (Nat.le_refl _), arrived]

end PacketDemuxer

end PacketComms
