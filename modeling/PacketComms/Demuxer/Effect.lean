import PacketComms.Demuxer.Machine

namespace PacketComms

/-- None of the three calls of `readBytes` asks for an error when nothing was read. -/
theorem Field.onZero_eq (field : Field) : field.onZero = false := by
  cases field <;> rfl

namespace PacketDemuxer

/-- Everything a step of the process can do, guards included. -/
inductive Effect (ids : IdManager) (d : PacketDemuxer) : DemuxerAction → PacketDemuxer → Prop
  | arrived {bytes} : d.receive ≠ .aborted →
      Effect ids d (.arrive bytes) { d with arrived := d.arrived ++ bytes, input := d.input ++ bytes }
  | readied {caller} : d.receive = .ready caller →
      Effect ids d (.ready true) { d with waits := d.waits ++ [true], receive := .test caller .type [] 4 }
  | timedOut {caller} : d.receive = .ready caller →
      Effect ids d (.ready false) { d with waits := d.waits ++ [false], receive := .loop }
  | reads {caller field buffer size} : d.receive = .test caller field buffer size → 0 < size →
      d.transportError = false → Effect ids d .receive { d with receive := .read caller field buffer size }
  | leaves {caller field buffer size} : d.receive = .test caller field buffer size →
      size = 0 ∨ d.transportError = true →
      Effect ids d .receive { d with receive := .check caller field buffer size }
  | failed {caller field buffer size} : d.receive = .read caller field buffer size →
      Effect ids d (.read .error) { d with transportError := true, receive := .loop }
  | got {caller field buffer size n} : d.receive = .read caller field buffer size → n ≤ size →
      n ≤ d.input.length →
      Effect ids d (.read (.count n)) { d with
        input := d.input.drop n
        receive := .test caller field (buffer ++ d.input.take n) (size - n) }
  | refused {caller field buffer size} : d.receive = .check caller field buffer size →
      d.transportError = true → Effect ids d .receive { d with receive := .loop }
  | typed {caller buffer size} : d.receive = .check caller .type buffer size → d.transportError = false →
      Effect ids d .receive { d with receive := .test caller (.size buffer) [] 4 }
  | threw {caller type buffer size} : d.receive = .check caller (.size type) buffer size →
      d.transportError = false → ComPacket.ofSize (ntohl type) (ntohl buffer) = none →
      Effect ids d .receive { d with receive := .aborted }
  | sized {caller type buffer size p} : d.receive = .check caller (.size type) buffer size →
      d.transportError = false → ComPacket.ofSize (ntohl type) (ntohl buffer) = some p →
      Effect ids d .receive { d with receive := .test caller (.payload p.type) [] p.data.length }
  | asserted {caller type buffer size} : d.receive = .check caller (.payload type) buffer size →
      d.transportError = false → type = IdManager.invalidPacket →
      Effect ids d .receive { d with receive := .aborted }
  | received {caller type buffer size} : d.receive = .check caller (.payload type) buffer size →
      d.transportError = false → type ≠ IdManager.invalidPacket →
      Effect ids d .receive { d with
        received := d.received ++ [⟨type, buffer⟩]
        receive :=
          match caller with
          | .receiveHelloMessage => .greet ⟨type, buffer⟩
          | .receiveLoop => .dispatch ⟨type, buffer⟩ }
  | greeted {packet} : d.receive = .greet packet → packet.type = IdManager.controlPacket →
      packet.data.head? = some ControlMessage.hello.value →
      Effect ids d .receive { d with receive := .loop, log := d.log ++ [.greeted packet] }
  | rejected {packet} : d.receive = .greet packet →
      (packet.type = IdManager.controlPacket → ∃ msg, packet.data.head? = some msg ∧ msg ≠ ControlMessage.hello.value) →
      Effect ids d .receive { d with
        receive := .loop, transportError := true, log := d.log ++ [.greeted packet] }
  | crashed {packet} : d.receive = .greet packet → packet = ⟨IdManager.controlPacket, []⟩ →
      Effect ids d .receive { d with receive := .aborted }
  | continues : d.receive = .loop → d.transportError = false →
      Effect ids d .receive { d with receive := .ready .receiveLoop }
  | exits : d.receive = .loop → d.transportError = true → Effect ids d .receive { d with receive := .exited }
  | handled {packet} : d.receive = .dispatch packet → packet.type = IdManager.controlPacket →
      Effect ids d .receive { d with
        receive := .loop, nextAddr := d.nextAddr + 1, log := d.log ++ [.handled ⟨d.nextAddr, packet⟩] }
  | dispatched {packet} : d.receive = .dispatch packet → packet.type ≠ IdManager.controlPacket →
      Effect ids d .receive { d with
        subscribers := d.subscribers.touch packet.type
        receive := .loop
        nextAddr := d.nextAddr + 1
        fault := d.fault || (d.subscribers.get packet.type).contains none
        log := d.log ++ [.dispatched ⟨d.nextAddr, packet⟩ ((d.subscribers.get packet.type).filterMap id)] }
  | unknown {i name} : ids.toId name = none → Effect ids d (.subscribe i name) d
  | subscribed {i name type} : d.handles i = none → d.destructor ≠ .returned → ids.toId name = some type →
      Effect ids d (.subscribe i name) { d with
        subscribers := d.subscribers.set type (d.subscribers.get type ++ [some ⟨d.nextAddr, type⟩])
        useCount := Function.update d.useCount d.nextAddr 2
        nextAddr := d.nextAddr + 1
        handles := Function.update d.handles i (some (some ⟨d.nextAddr, type⟩))
        log := d.log ++ [.subscribed ⟨d.nextAddr, type⟩] }
  | constructed {i} : d.handles i = none →
      Effect ids d (.construct i) { d with handles := Function.update d.handles i (some none) }
  | moveConstructed {i j ptr} : d.handles i = none → d.handles j = some ptr →
      Effect ids d (.moveConstruct i j) { d with
        handles := Function.update (Function.update d.handles j (some none)) i (some ptr) }
  | moveAssigned {i j this toMove} : d.handles i = some this → d.handles j = some toMove →
      Effect ids d (.moveAssign i j) { d with
        handles := Function.update (Function.update d.handles i (some toMove)) j (some this) }
  | destructedNull {i} : d.handles i = some none →
      Effect ids d (.destruct i) { d with handles := Function.update d.handles i none }
  | destructed {i s d'} : d.handles i = some (some s) →
      d' = (if d.useCount s.addr > 1 then d.unsubscribe ids s else d) →
      Effect ids d (.destruct i) { d' with
        useCount := release d'.useCount (some s)
        handles := Function.update d'.handles i none
        log := d'.log ++ [.destructed s] }
  | destroys : d.destructor = .notCalled →
      Effect ids d .destroy { d with transportError := true, destructor := .warning }
  | warned : d.destructor = .warning →
      Effect ids d .destroy { d with
        destructor := .joining
        fault := d.fault || d.subscribers.keys.any (fun type =>
          d.subscribers.get type ≠ [] ∧ ids.toString type = none) }
  | joined : d.destructor = .joining → d.receive = .exited →
      Effect ids d .destroy { d with
        destructor := .returned
        subscribers := .empty
        useCount := (d.subscribers.keys.flatMap d.subscribers.get).foldl release d.useCount }

theorem fieldRead_effect {ids : IdManager} {d : PacketDemuxer} {caller : Caller} {field : Field}
    {buffer : List Byte} {size : Nat} (at_pc : d.receive = .check caller field buffer size)
    (flag : d.transportError = false) : Effect ids d .receive (d.fieldRead caller buffer field) := by
  cases field with
  | type => exact .typed at_pc flag
  | size type =>
    simp only [fieldRead]
    split
    · rename_i failed
      exact .threw at_pc flag failed
    · rename_i p made
      exact .sized at_pc flag made
  | payload type =>
    simp only [fieldRead]
    split
    · rename_i invalid
      exact .asserted at_pc flag invalid
    · rename_i valid
      exact .received at_pc flag valid

theorem greetStep_effect {ids : IdManager} {d : PacketDemuxer} {packet : ComPacket}
    (at_pc : d.receive = .greet packet) : Effect ids d .receive (d.greetStep packet) := by
  unfold greetStep
  split
  · rename_i control
    split
    · rename_i empty
      exact .crashed at_pc (by cases packet; simp_all)
    · rename_i msg rest data
      split
      · rename_i hello
        exact .greeted at_pc control (by rw [data, hello]; rfl)
      · rename_i other
        exact .rejected at_pc (fun _ => ⟨msg, by rw [data]; rfl, other⟩)
  · rename_i user
    exact .rejected at_pc (fun control => absurd control user)

theorem receiveStep_effect {ids : IdManager} {d d' : PacketDemuxer} (run : d.receiveStep = some d') :
    Effect ids d .receive d' := by
  unfold receiveStep at run
  split at run
  · rename_i caller field buffer size at_pc
    split at run
    · rename_i more
      cases Option.some.inj run
      exact .reads at_pc more.1 more.2
    · rename_i done
      cases Option.some.inj run
      refine .leaves at_pc ?_
      by_cases positive : 0 < size
      · exact Or.inr (by simpa [positive] using done)
      · exact Or.inl (by omega)
  · rename_i caller field buffer size at_pc
    split at run
    · rename_i flag
      cases Option.some.inj run
      exact .refused at_pc flag
    · rename_i flag
      cases Option.some.inj run
      exact fieldRead_effect at_pc (by simpa using flag)
  · rename_i packet at_pc
    cases Option.some.inj run
    exact greetStep_effect at_pc
  · rename_i at_pc
    cases Option.some.inj run
    split
    · rename_i flag
      exact .continues at_pc flag
    · rename_i flag
      exact .exits at_pc (by simpa using flag)
  · rename_i packet at_pc
    cases Option.some.inj run
    unfold dispatchStep
    split
    · rename_i control
      exact .handled at_pc control
    · rename_i user
      exact .dispatched at_pc user
  · simp at run

theorem subscribe_effect {ids : IdManager} {d d' : PacketDemuxer} {i : Nat} {name : String}
    (run : d.subscribe ids i name = some d') : Effect ids d (.subscribe i name) d' := by
  unfold subscribe at run
  split at run
  · simp at run
  · simp at run
  · rename_i empty alive
    split at run
    · rename_i refused
      cases Option.some.inj run
      exact .unknown refused
    · rename_i type issued
      cases Option.some.inj run
      exact .subscribed empty (fun dead => alive dead) issued

theorem destruct_effect {ids : IdManager} {d d' : PacketDemuxer} {i : Nat}
    (run : d.destruct ids i = some d') : Effect ids d (.destruct i) d' := by
  unfold destruct at run
  split at run
  · simp at run
  · rename_i null
    cases Option.some.inj run
    exact .destructedNull null
  · rename_i s holds
    cases Option.some.inj run
    exact .destructed holds rfl

theorem destroyStep_effect {ids : IdManager} {d d' : PacketDemuxer} (run : d.destroyStep ids = some d') :
    Effect ids d .destroy d' := by
  unfold destroyStep at run
  split at run
  · rename_i at_pc
    cases Option.some.inj run
    exact .destroys at_pc
  · rename_i at_pc
    cases Option.some.inj run
    exact .warned at_pc
  · rename_i at_pc exited
    cases Option.some.inj run
    exact .joined at_pc exited
  · simp at run

/-- Inversion: every step has one of the effects. -/
theorem step_effect {ids : IdManager} {d d' : PacketDemuxer} {action : DemuxerAction}
    (run : step ids d action = some d') : Effect ids d action d' := by
  unfold step at run
  split at run
  · simp at run
  · rename_i bytes alive
    cases Option.some.inj run
    exact .arrived alive
  · rename_i caller answer at_pc
    cases Option.some.inj run
    cases answer with
    | true => exact .readied at_pc
    | false => exact .timedOut at_pc
  · rename_i at_pc
    cases Option.some.inj run
    exact .failed at_pc
  · rename_i caller field buffer size n at_pc
    split at run
    · rename_i bound
      rw [if_neg (by simp [Field.onZero_eq])] at run
      cases Option.some.inj run
      exact .got at_pc bound.1 bound.2
    · simp at run
  · exact receiveStep_effect run
  · exact subscribe_effect run
  · split at run
    · rename_i empty
      cases Option.some.inj run
      exact .constructed empty
    · simp at run
  · split at run
    · rename_i empty holds
      cases Option.some.inj run
      exact .moveConstructed empty holds
    · simp at run
  · split at run
    · rename_i left right
      cases Option.some.inj run
      exact .moveAssigned left right
    · simp at run
  · exact destruct_effect run
  · exact destroyStep_effect run
  · simp at run

theorem arrive_eq {ids : IdManager} {d : PacketDemuxer} {bytes : List Byte} (alive : d.receive ≠ .aborted) :
    step ids d (.arrive bytes) = some { d with arrived := d.arrived ++ bytes, input := d.input ++ bytes } := by
  unfold step
  split <;> simp_all

end PacketDemuxer

end PacketComms
