import PacketComms.Demuxer.FrameRun
import PacketComms.Demuxer.Handling

namespace PacketComms

/-- A control packet whose message is `Hello`. Only its first byte is looked at. -/
def ComPacket.IsHello (p : ComPacket) : Prop :=
  p.type = IdManager.controlPacket ∧ p.data.head? = some ControlMessage.hello.value

/-- A stream begins with the frame of a packet that `receivePacket` can return. -/
def BeginsWith (stream : List Byte) (p : ComPacket) : Prop :=
  p.type ≠ IdManager.invalidPacket ∧ p.data.length < 2 ^ 31 ∧ p.frame <+: stream

/-- A stream whose first frame ends the process: its size field is too large for the vector, its type is 0, or it is
a control packet without a message. -/
def FatalFirst (stream : List Byte) : Prop :=
  (∃ type size : UInt32, ¬ size.toNat < 2 ^ 31 ∧ htonl type ++ htonl size <+: stream) ∨
  (∃ data : List Byte, data.length < 2 ^ 31 ∧ ComPacket.frame ⟨IdManager.invalidPacket, data⟩ <+: stream) ∨
  ComPacket.frame ⟨IdManager.controlPacket, []⟩ <+: stream

theorem FatalFirst.mono {stream more : List Byte} (fatal : FatalFirst stream) (sub : stream <+: more) :
    FatalFirst more := by
  rcases fatal with ⟨type, size, large, begins⟩ | ⟨data, small, begins⟩ | begins
  · exact Or.inl ⟨type, size, large, begins.trans sub⟩
  · exact Or.inr (Or.inl ⟨data, small, begins.trans sub⟩)
  · exact Or.inr (Or.inr (begins.trans sub))

namespace PacketDemuxer

/-- The peer sends this stream, or a part of it. -/
def FromPeer (stream : List Byte) (d : PacketDemuxer) : DemuxerAction → Prop
  | .arrive bytes => d.arrived ++ bytes <+: stream
  | _ => True

theorem reach_arrived {ids : IdManager} {stream : List Byte} {C : PacketDemuxer → DemuxerAction → Prop}
    (peer : ∀ d action, C d action → FromPeer stream d action) {d : PacketDemuxer}
    (reach : (system ids).ReachUnder C d) : d.arrived <+: stream := by
  refine reach.invariant (I := fun d => d.arrived <+: stream) List.nil_prefix ?_
  intro s a s' _ inv met run
  rcases (step_effect run).arrived_cases with ⟨bytes, rfl, arrived⟩ | same
  · rw [arrived]
    exact peer _ _ met
  · rw [same]
    exact inv

/-- The first packet received is the one whose frame the stream begins with. -/
theorem ReadInv.beginsWith {d : PacketDemuxer} (inv : ReadInv d) {stream : List Byte} {p : ComPacket}
    (arrived : d.arrived <+: stream) (first : d.received.head? = some p) : BeginsWith stream p := by
  obtain ⟨rest, received⟩ := List.head?_eq_some_iff.mp first
  obtain ⟨valid, small⟩ := inv.valid p (by rw [received]; exact List.mem_cons_self)
  refine ⟨valid, small, List.IsPrefix.trans ?_ (inv.sub.trans arrived)⟩
  rw [received, PrefixCode.stream_cons]
  exact List.prefix_append _ _

theorem BeginsWith.unique {stream : List Byte} {p q : ComPacket} (hp : BeginsWith stream p)
    (hq : BeginsWith stream q) : p = q := by
  obtain ⟨-, pSmall, x, px⟩ := hp
  obtain ⟨-, qSmall, y, qy⟩ := hq
  exact ComPacket.frame_delimited (by omega) (by omega) (px.trans qy.symm)

/-- The first packet received is a Hello message. -/
def Shaken (d : PacketDemuxer) : Prop := ∃ p, d.received.head? = some p ∧ p.IsHello

/-- The thread has stopped, or will at the head of its loop, and no callback was invoked. -/
def Halted (d : PacketDemuxer) : Prop :=
  invocations d.log = [] ∧
  (d.transportError = true ∧ (d.receive = .loop ∨ d.receive = .exited) ∨
    d.receive = .aborted ∧ ∀ p ∈ d.received, p = ⟨IdManager.controlPacket, []⟩)

/-- What follows if the first wait of all was successful. -/
structure GreetInv (d : PacketDemuxer) : Prop where
  fresh : d.receive = .ready .receiveHelloMessage → d.waits = []
  asked : d.waits = [] → d.receive = .ready .receiveHelloMessage
  ready : d.waits.head? = some true → d.receive.Greeting ∨ d.Shaken ∨ d.Halted

theorem Shaken.grow {d d' : PacketDemuxer} (shaken : d.Shaken) (received : d.received <+: d'.received) :
    d'.Shaken := by
  obtain ⟨p, first, hello⟩ := shaken
  obtain ⟨rest, grown⟩ := received
  exact ⟨p, by rw [← grown, List.head?_append, first]; rfl, hello⟩

/-- A step behind the handshake, or one that leaves the thread where it is. -/
theorem GreetInv.quiet {d d' : PacketDemuxer} (inv : GreetInv d) (waits : d'.waits = d.waits)
    (received : d.received <+: d'.received)
    (fresh : d'.receive = .ready .receiveHelloMessage ↔ d.receive = .ready .receiveHelloMessage)
    (greeting : d.receive.Greeting → d'.receive.Greeting ∨ d'.Shaken ∨ d'.Halted)
    (halted : d.Halted → d'.Halted) : GreetInv d' := by
  refine ⟨fun now => by rw [waits]; exact inv.fresh (fresh.mp now),
    fun none => fresh.mpr (inv.asked (waits ▸ none)), fun first => ?_⟩
  rcases inv.ready (waits ▸ first) with now | shaken | stopped
  · exact greeting now
  · exact Or.inr (Or.inl (shaken.grow received))
  · exact Or.inr (Or.inr (halted stopped))

/-- A step of a thread that has not halted. -/
theorem GreetInv.running {d d' : PacketDemuxer} (inv : GreetInv d) (running : ¬ d.Halted) (waits : d'.waits = d.waits)
    (received : d.received <+: d'.received)
    (fresh : d'.receive = .ready .receiveHelloMessage ↔ d.receive = .ready .receiveHelloMessage)
    (greeting : d.receive.Greeting → d'.receive.Greeting ∨ d'.Shaken ∨ d'.Halted) : GreetInv d' :=
  inv.quiet waits received fresh greeting (fun halted => absurd halted running)

/-- A later wait does not change what the first one was followed by. -/
theorem GreetInv.waitsAgain {d : PacketDemuxer} (inv : GreetInv d) (at_pc : d.receive = .ready .receiveLoop)
    {answer : Bool} (first : (d.waits ++ [answer]).head? = some true) : d.Shaken := by
  have asked : d.waits ≠ [] := by
    intro none
    have hello := inv.asked none
    rw [at_pc] at hello
    cases hello
  rw [List.head?_append_of_ne_nil _ asked] at first
  rcases inv.ready first with now | shaken | ⟨-, stopped⟩
  · rw [at_pc] at now
    cases now
  · exact shaken
  · simp [at_pc] at stopped

theorem Effect.greetInv {ids : IdManager} {d d' : PacketDemuxer} {action : DemuxerAction}
    (handled : HandledInv d) (inv : GreetInv d) (effect : Effect ids d action d') : GreetInv d' := by
  have silent : d.receive.Greeting → invocations d.log = [] := fun now =>
    invocations_of_dealtWith _ (handled.greeting now)
  cases effect with
  | unknown => exact inv
  | subscribed =>
    refine inv.quiet rfl List.prefix_rfl Iff.rfl Or.inl ?_
    rintro ⟨calls, stopped⟩
    exact ⟨by simp [calls, DemuxerEvent.calls], stopped⟩
  | arrived | constructed | moveConstructed | moveAssigned | destructedNull | warned | joined =>
    exact inv.quiet rfl List.prefix_rfl Iff.rfl Or.inl id
  | destroys =>
    refine inv.quiet rfl List.prefix_rfl Iff.rfl Or.inl ?_
    rintro ⟨calls, stopped⟩
    exact ⟨calls, stopped.imp (fun noted => ⟨rfl, noted.2⟩) id⟩
  | destructed _ same =>
    subst same
    split
    · refine inv.quiet (by simp) (by simp) (by simp) (by simp [ReceivePc.Greeting]; tauto) ?_
      rintro ⟨calls, stopped⟩
      exact ⟨by simp [calls, DemuxerEvent.calls], by simpa using stopped⟩
    · refine inv.quiet rfl List.prefix_rfl Iff.rfl Or.inl ?_
      rintro ⟨calls, stopped⟩
      exact ⟨by simp [calls, DemuxerEvent.calls], stopped⟩
  | @readied caller at_pc =>
    refine ⟨fun now => absurd now (by simp), by simp, fun first => ?_⟩
    cases caller with
    | receiveHelloMessage => exact Or.inl rfl
    | receiveLoop => exact Or.inr (Or.inl (inv.waitsAgain at_pc first))
  | @timedOut caller at_pc =>
    refine ⟨fun now => absurd now (by simp), by simp, fun first => ?_⟩
    cases caller with
    | receiveHelloMessage =>
      rw [inv.fresh at_pc] at first
      cases first
    | receiveLoop => exact Or.inr (Or.inl (inv.waitsAgain at_pc first))
  | reads at_pc | leaves at_pc | got at_pc | typed at_pc | sized at_pc =>
    refine inv.running (by simp [Halted, at_pc]) rfl List.prefix_rfl (by simp [at_pc]) ?_
    rw [at_pc]
    exact Or.inl
  | failed at_pc =>
    refine inv.running (by simp [Halted, at_pc]) rfl List.prefix_rfl (by simp [at_pc]) (fun now => ?_)
    exact Or.inr (Or.inr ⟨silent now, Or.inl ⟨rfl, Or.inl rfl⟩⟩)
  | refused at_pc flag =>
    refine inv.running (by simp [Halted, at_pc]) rfl List.prefix_rfl (by simp [at_pc]) (fun now => ?_)
    exact Or.inr (Or.inr ⟨silent now, Or.inl ⟨flag, Or.inl rfl⟩⟩)
  | threw at_pc | asserted at_pc =>
    refine inv.running (by simp [Halted, at_pc]) rfl List.prefix_rfl (by simp [at_pc]) (fun now => ?_)
    have received := handled.received_eq now
    rw [at_pc] at received
    exact Or.inr (Or.inr ⟨silent now, Or.inr ⟨rfl, by simp [received, ReceivePc.inHand]⟩⟩)
  | @received caller type buffer size at_pc =>
    refine inv.running (by simp [Halted, at_pc]) rfl (List.prefix_append _ _) (by cases caller <;> simp [at_pc]) ?_
    rw [at_pc]
    intro now
    cases now
    exact Or.inl trivial
  | @greeted packet at_pc control hello =>
    refine inv.running (by simp [Halted, at_pc]) rfl List.prefix_rfl (by simp [at_pc]) (fun now => ?_)
    have received := handled.received_eq now
    rw [at_pc] at received
    exact Or.inr (Or.inl ⟨packet, by simp [received, ReceivePc.inHand], control, hello⟩)
  | rejected at_pc =>
    refine inv.running (by simp [Halted, at_pc]) rfl List.prefix_rfl (by simp [at_pc]) (fun now => ?_)
    exact Or.inr (Or.inr ⟨by simp [silent now, DemuxerEvent.calls], Or.inl ⟨rfl, Or.inl rfl⟩⟩)
  | @crashed packet at_pc empty =>
    refine inv.running (by simp [Halted, at_pc]) rfl List.prefix_rfl (by simp [at_pc]) (fun now => ?_)
    have received := handled.received_eq now
    rw [at_pc] at received
    refine Or.inr (Or.inr ⟨silent now, Or.inr ⟨rfl, ?_⟩⟩)
    simpa [received, ReceivePc.inHand] using empty
  | continues at_pc flag =>
    exact inv.running (by simp [Halted, at_pc, flag]) rfl List.prefix_rfl (by simp [at_pc])
      (by simp [at_pc, ReceivePc.Greeting])
  | exits at_pc flag =>
    refine inv.quiet rfl List.prefix_rfl (by simp [at_pc]) (by simp [at_pc, ReceivePc.Greeting]) ?_
    rintro ⟨calls, -⟩
    exact ⟨calls, Or.inl ⟨flag, Or.inr rfl⟩⟩
  | handled at_pc | dispatched at_pc =>
    exact inv.running (by simp [Halted, at_pc]) rfl List.prefix_rfl (by simp [at_pc])
      (by simp [at_pc, ReceivePc.Greeting])

theorem reach_greetInv {ids : IdManager} {C : PacketDemuxer → DemuxerAction → Prop} {d : PacketDemuxer}
    (reach : (system ids).ReachUnder C d) : GreetInv d := by
  refine reach.invariant ⟨fun _ => rfl, fun _ => rfl, nofun⟩ ?_
  exact fun before inv _ run => (step_effect run).greetInv (reach_handledInv before) inv

/-- Before anything has been dealt with, only a fatal frame ends the process. -/
theorem Effect.fatalFirst {ids : IdManager} {d d' : PacketDemuxer} {action : DemuxerAction} (read : ReadInv d)
    (alive : d.receive ≠ .aborted) (early : d.received = d.receive.inHand) (effect : Effect ids d action d')
    (aborted : d'.receive = .aborted) : FatalFirst d.arrived := by
  cases effect with
  | @threw caller type buffer size at_pc flag made =>
    have header := read.header at_pc flag
    rw [early, at_pc] at header
    rw [ComPacket.ofSize_eq] at made
    split at made
    · cases made
    · rename_i large
      exact Or.inl ⟨ntohl type, ntohl buffer, large, header⟩
  | @asserted caller type buffer size at_pc flag invalid =>
    subst invalid
    obtain ⟨small, whole⟩ := read.frame at_pc flag
    rw [early, at_pc] at whole
    exact Or.inr (Or.inl ⟨buffer, small, d.input, by simpa [ComPacket.code, ReceivePc.inHand] using whole⟩)
  | @crashed packet at_pc empty =>
    subst empty
    have sub := read.sub
    rw [early, at_pc] at sub
    exact Or.inr (Or.inr (by simpa [ComPacket.code, ReceivePc.inHand] using sub))
  | destructed _ same =>
    subst same
    split at aborted
    · exact absurd (by simpa using aborted) alive
    · exact absurd aborted alive
  | arrived | unknown | subscribed | constructed | moveConstructed | moveAssigned | destructedNull | destroys | warned
  | joined => exact absurd aborted alive
  | @received caller => cases caller <;> cases aborted
  | _ => cases aborted

theorem Effect.received_grows {ids : IdManager} {d d' : PacketDemuxer} {action : DemuxerAction}
    (effect : Effect ids d action d') : d.received <+: d'.received := by
  cases effect with
  | received => exact List.prefix_append _ _
  | destructed _ same =>
    subst same
    split
    · simp
    · exact List.prefix_rfl
  | _ => exact List.prefix_rfl

/-- The process ends over a first frame that is fatal, or behind a packet. -/
theorem reach_aborted {ids : IdManager} {C : PacketDemuxer → DemuxerAction → Prop} {d : PacketDemuxer}
    (reach : (system ids).ReachUnder C d) (aborted : d.receive = .aborted) (none : d.received = []) :
    FatalFirst d.arrived := by
  refine reach.invariant (I := fun d => d.receive = .aborted → d.received = [] → FatalFirst d.arrived) nofun ?_
    aborted none
  intro d a d' before inv _ run aborted none
  have effect := step_effect run
  have none : d.received = [] := List.prefix_nil.mp (none ▸ effect.received_grows)
  have grown : d.arrived <+: d'.arrived := by
    rcases effect.arrived_cases with ⟨bytes, -, arrived⟩ | same
    · exact ⟨bytes, arrived.symm⟩
    · rw [same]
  refine FatalFirst.mono ?_ grown
  by_cases alive : d.receive = .aborted
  · exact inv alive none
  · have all := (reach_handledInv before).all alive
    rw [none] at all
    exact effect.fatalFirst (reach_readInv before) alive (none.trans (List.append_eq_nil_iff.mp all).2.symm) aborted

/-- No callback is invoked unless the first packet was a Hello message, after any other first packet the error is noted,
if `receiveHelloMessage` is not about to do so, and no first frame ends the process. -/
structure HelloChecked (d : PacketDemuxer) : Prop where
  called : invocations d.log ≠ [] → d.Shaken
  noted : ∀ p, d.received.head? = some p → ¬ p.IsHello →
    invocations d.log = [] ∧ (d.receive = .greet p ∨ d.transportError = true)
  lives : d.receive = .aborted → d.Shaken

/-- The first packet must be a Hello message, or else the wait for it must succeed, and its frame must not be
fatal. -/
theorem helloChecked {stream : List Byte} {d : PacketDemuxer} {b : Bool}
    (arrived : d.arrived <+: stream) (read : ReadInv d) (handled : HandledInv d) (greet : GreetInv d)
    (first : d.waits.head? = some b) (ends : d.receive = .aborted → d.received = [] → FatalFirst d.arrived)
    (survives : ¬ FatalFirst stream) (only : ∀ p, BeginsWith stream p → p.IsHello ∨ b = true) :
    HelloChecked d := by
  have shaken : ∀ p, d.received.head? = some p → p.IsHello → d.Shaken := fun p head hello => ⟨p, head, hello⟩
  have some_received : invocations d.log ≠ [] → ∃ p, d.received.head? = some p := by
    intro calls
    obtain ⟨rest, received⟩ := handled.sub
    cases dealt : dealtWith d.log with
    | nil => exact absurd (invocations_of_dealtWith _ dealt) calls
    | cons p tail => exact ⟨p, by rw [← received, dealt]; rfl⟩
  have message : ∀ p, d.received.head? = some p → p ≠ ⟨IdManager.controlPacket, []⟩ := by
    rintro p head rfl
    exact survives (Or.inr (Or.inr (read.beginsWith arrived head).2.2))
  have early : b = true → ∀ p, d.received.head? = some p → ¬ p.IsHello →
      invocations d.log = [] ∧ (d.receive = .greet p ∨ d.transportError = true) := by
    rintro rfl p head other
    rcases greet.ready first with now | ⟨q, head', hello⟩ | ⟨calls, stopped⟩
    · refine ⟨invocations_of_dealtWith _ (handled.greeting now), Or.inl ?_⟩
      rw [handled.received_eq now] at head
      cases at_pc : d.receive with
      | greet q => rw [at_pc] at head; cases head; rfl
      | dispatch q => rw [at_pc] at now; cases now
      | _ => rw [at_pc] at head; cases head
    · cases head.symm.trans head'
      exact absurd hello other
    · refine ⟨calls, Or.inr ?_⟩
      rcases stopped with ⟨flag, -⟩ | ⟨-, empty⟩
      · exact flag
      · exact absurd (empty p (List.mem_of_mem_head? head)) (message p head)
  refine ⟨fun calls => ?_, fun p head other => ?_, fun aborted => ?_⟩
  · obtain ⟨p, head⟩ := some_received calls
    rcases only p (read.beginsWith arrived head) with hello | ready
    · exact shaken p head hello
    · by_contra none
      exact calls (early ready p head (fun hello => none (shaken p head hello))).1
  · rcases only p (read.beginsWith arrived head) with hello | ready
    · exact absurd hello other
    · exact early ready p head other
  · -- Behind a first packet that is no Hello message the thread does not get as far as a second one.
    cases received : d.received with
    | nil => exact absurd ((ends aborted received).mono arrived) survives
    | cons p rest =>
      have head : d.received.head? = some p := by rw [received]; rfl
      rcases only p (read.beginsWith arrived head) with hello | ready
      · exact shaken p head hello
      · subst ready
        rcases greet.ready first with now | shaken | ⟨-, ⟨-, stopped⟩ | ⟨-, empty⟩⟩
        · rw [aborted] at now
          cases now
        · exact shaken
        · rw [aborted] at stopped
          simp at stopped
        · exact absurd (empty p (List.mem_of_mem_head? head)) (message p head)

/-- Bytes that the peer may send have arrived, and nothing else has happened. -/
theorem reach_arrives (ids : IdManager) {stream bytes : List Byte} (begins : bytes <+: stream) :
    (system ids).ReachUnder (FromPeer stream) { arrived := bytes, input := bytes } :=
  have met : FromPeer stream (system ids).start (.arrive bytes) := begins
  .next .start met rfl

theorem Receiving.fromPeer {action : DemuxerAction} (receiving : Receiving action) (stream : List Byte)
    (d : PacketDemuxer) : FromPeer stream d action := by
  rcases receiving with rfl | rfl | ⟨n, rfl⟩ <;> trivial

theorem frameActions_fromPeer (stream : List Byte) (p : ComPacket) :
    ∀ action ∈ frameActions p, ∀ d, FromPeer stream d action :=
  fun action member d => (frameActions_receiving p action member).fromPeer stream d

/-- These bytes have arrived, and `readyForReading` is about to say so, after it has timed out before if `first` is
false. -/
def awaiting (bytes : List Byte) (first : Bool) : PacketDemuxer :=
  { arrived := bytes
    input := bytes
    waits := if first then [] else [false]
    receive := .ready (if first then .receiveHelloMessage else .receiveLoop) }

theorem reach_awaiting (ids : IdManager) {stream bytes : List Byte} (begins : bytes <+: stream) (first : Bool) :
    (system ids).ReachUnder (FromPeer stream) (awaiting bytes first) := by
  cases first with
  | true => exact reach_arrives ids begins
  | false =>
    have waited : (system ids).run { arrived := bytes, input := bytes } [.ready false, .receive] =
        some (awaiting bytes false) := rfl
    refine (reach_arrives ids begins).run ?_ waited
    intro action member d
    simp only [List.mem_cons, List.not_mem_nil, or_false] at member
    rcases member with rfl | rfl <;> trivial

theorem awaiting_waits (bytes : List Byte) (first : Bool) :
    ((awaiting bytes first).waits ++ [true]).head? = some first := by
  cases first <;> rfl

/-- A first wait that times out lets any first packet through. -/
theorem reach_unchecked (ids : IdManager) {stream : List Byte} {p : ComPacket} (begins : BeginsWith stream p) :
    ∃ d, (system ids).ReachUnder (FromPeer stream) d ∧ d.waits.head? = some false ∧
      d.received = [p] ∧ d.receive = .dispatch p ∧ d.transportError = false := by
  obtain ⟨valid, small, begins⟩ := begins
  have received := receivePacket_run ids (p := p) (d := awaiting p.frame false) rfl rfl (List.append_nil _).symm
    valid small
  exact ⟨_, (reach_awaiting ids begins false).run (frameActions_fromPeer stream p) received, rfl, rfl, rfl, rfl⟩

/-- The next step of the receive thread ends the process over the first frame, behind a first wait that was answered
with `first`. -/
def EndsFirst (ids : IdManager) (stream : List Byte) (first : Bool) : Prop :=
  ∃ d d', (system ids).ReachUnder (FromPeer stream) d ∧ (system ids).step d .receive = some d' ∧
    d'.receive = .aborted ∧ d'.waits.head? = some first ∧ ¬ d'.Shaken ∧ (first = true → d.receive.Greeting)

theorem not_shaken_of_nil {d : PacketDemuxer} (none : d.received = []) : ¬ d.Shaken := by
  rintro ⟨p, head, -⟩
  rw [none] at head
  cases head

/-- A header whose size is too large for the vector, -/
theorem ends_oversized (ids : IdManager) {stream : List Byte} {type size : UInt32} (large : ¬ size.toNat < 2 ^ 31)
    (begins : htonl type ++ htonl size <+: stream) (first : Bool) : EndsFirst ids stream first := by
  have read := size_run ids (d := awaiting (htonl type ++ htonl size) first) rfl rfl (by rw [List.append_nil]; rfl)
    (htonl_length type) (htonl_length size)
  have threw : ComPacket.ofSize (ntohl (htonl type)) (ntohl (htonl size)) = none := by
    rw [ntohl_htonl, ntohl_htonl, ComPacket.ofSize_eq, if_neg large]
  have ends (d : PacketDemuxer) (caller : Caller) : d.fieldRead caller (htonl size) (.size (htonl type)) =
      { d with receive := .aborted } := by simp only [fieldRead, threw]
  refine ⟨_, _, (reach_awaiting ids begins first).run
    (fun action member d => (sizeActions_receiving action member).fromPeer stream d) read,
    (step_check ids rfl rfl).trans (congrArg some (ends _ _)), rfl, awaiting_waits _ first, not_shaken_of_nil rfl, ?_⟩
  rintro rfl
  rfl

theorem ends_invalid (ids : IdManager) {stream data : List Byte} (small : data.length < 2 ^ 31)
    (begins : ComPacket.frame ⟨IdManager.invalidPacket, data⟩ <+: stream) (first : Bool) :
    EndsFirst ids stream first := by
  have read := payload_run ids (p := ⟨IdManager.invalidPacket, data⟩)
    (d := awaiting (ComPacket.frame ⟨IdManager.invalidPacket, data⟩) first) rfl rfl (List.append_nil _).symm small
  refine ⟨_, _, (reach_awaiting ids begins first).run
    (fun action member d => (payloadActions_receiving _ action member).fromPeer stream d) read,
    step_check ids rfl rfl, rfl, awaiting_waits _ first, not_shaken_of_nil rfl, ?_⟩
  rintro rfl
  rfl

theorem ends_empty (ids : IdManager) {stream : List Byte}
    (begins : ComPacket.frame ⟨IdManager.controlPacket, []⟩ <+: stream) : EndsFirst ids stream true := by
  have received := receivePacket_run ids (p := ⟨IdManager.controlPacket, []⟩)
    (d := awaiting (ComPacket.frame ⟨IdManager.controlPacket, []⟩) true) rfl rfl (List.append_nil _).symm (by decide)
    (by decide)
  refine ⟨_, _, (reach_awaiting ids begins true).run (frameActions_fromPeer stream _) received, rfl, rfl, rfl, ?_,
    fun _ => trivial⟩
  rintro ⟨p, head, hello⟩
  cases head
  exact absurd hello.2 (by decide)

/-- A fatal frame ends the process, but for an empty control packet that `receiveHelloMessage` does not see. -/
theorem fatal_ends (ids : IdManager) {stream : List Byte} (fatal : FatalFirst stream) (first : Bool) :
    EndsFirst ids stream first ∨ first = false ∧ BeginsWith stream ⟨IdManager.controlPacket, []⟩ := by
  rcases fatal with ⟨type, size, large, begins⟩ | ⟨data, small, begins⟩ | begins
  · exact Or.inl (ends_oversized ids large begins first)
  · exact Or.inl (ends_invalid ids small begins first)
  · cases first with
    | true => exact Or.inl (ends_empty ids begins)
    | false => exact Or.inr ⟨rfl, by decide, by decide, begins⟩

/-- Over all runs against a peer whose first wait is answered with `b`: the handshake is checked exactly if the first
frame of the stream is not fatal, and the first packet is a Hello message, if there is one, or the wait was
successful. -/
theorem helloChecked_iff (ids : IdManager) (stream : List Byte) (b : Bool) :
    (∀ d, (system ids).ReachUnder (FromPeer stream) d → d.waits.head? = some b → HelloChecked d) ↔
    ¬ FatalFirst stream ∧ ∀ p, BeginsWith stream p → p.IsHello ∨ b = true := by
  constructor
  · intro checked
    have only : ∀ p, BeginsWith stream p → p.IsHello ∨ b = true := by
      intro p begins
      by_contra neither
      obtain ⟨other, late⟩ := not_or.mp neither
      rw [Bool.not_eq_true] at late
      subst late
      obtain ⟨d, reach, first, received, at_pc, flag⟩ := reach_unchecked ids begins
      have caught := ((checked d reach first).noted p (by rw [received]; rfl) other).2
      simp [at_pc, flag] at caught
    refine ⟨fun fatal => ?_, only⟩
    rcases fatal_ends ids fatal b with ⟨d, d', reach, run, aborted, first, unshaken, -⟩ | ⟨rfl, begins⟩
    · have met : FromPeer stream d .receive := trivial
      exact unshaken ((checked d' (.next reach met run) first).lives aborted)
    · rcases only _ begins with hello | late
      · exact absurd hello.2 (by decide)
      · cases late
  · rintro ⟨survives, only⟩ d reach first
    exact helloChecked (reach_arrived (fun _ _ met => met) reach) (reach_readInv reach) (reach_handledInv reach)
      (reach_greetInv reach) first (reach_aborted reach) survives only

/-- A subscriber, a first wait that times out, and a packet of its type. -/
def lateFrame : List DemuxerAction :=
  .subscribe 0 "A" :: .ready false :: .receive :: (frameActions ⟨2, [7]⟩ ++ [.receive])

/-- The answer comes late, and the first packet goes to a callback although it is no Hello
message. -/
theorem helloChecked_fails : ¬ ∀ (names : List String) (ids : IdManager) (stream : List Byte) (d : PacketDemuxer),
    IdManager.ofList names = some ids → (system ids).ReachUnder (FromPeer stream) d → HelloChecked d := by
  intro always
  obtain ⟨ids, built, d, reach, seen⟩ : ∃ ids, IdManager.ofList ["A"] = some ids ∧
      ∃ d, (system ids).ReachUnder (FromPeer (ComPacket.frame ⟨2, [7]⟩)) d ∧
        (fun d : PacketDemuxer => (invocations d.log, d.received)) d = ([(⟨0, 2⟩, ⟨1, 2, [7]⟩)], [⟨2, [7]⟩]) := by
    refine ⟨_, rfl, (reach_arrives _ List.prefix_rfl).computed _ lateFrame ?_ (by decide)⟩
    intro action member d
    simp only [lateFrame, List.mem_cons, List.mem_append, List.not_mem_nil, or_false] at member
    rcases member with rfl | rfl | rfl | framed | rfl
    · trivial
    · trivial
    · trivial
    · exact frameActions_fromPeer _ _ action framed d
    · trivial
  obtain ⟨calls, received⟩ := Prod.mk.inj seen
  obtain ⟨p, first, hello⟩ := (always ["A"] ids _ d built reach).called (by rw [calls]; nofun)
  rw [received] at first
  cases first
  exact absurd hello.1 (by decide)

end PacketDemuxer

end PacketComms
