import PacketComms.Muxer.Machine

namespace PacketComms.PacketMuxer

/-- Everything a step of `emplacePacket` can do. -/
inductive Emplaced (m : PacketMuxer) (t : MuxerThread) (alloc : Bool) : PostPc → PostPc → PacketMuxer → Prop
  | locked {name type args l} : m.txLock.acquire t = some l →
      Emplaced m t alloc (.locking name type args) (.emplacing name type args) { m with txLock := l }
  | threw {name type args} : (if alloc then ComPacket.make type args else none) = none →
      Emplaced m t alloc (.emplacing name type args) .unlocking { m with txQueues := m.txQueues.touch type }
  | emplaced {name type args packet} : alloc = true → ComPacket.make type args = some packet →
      Emplaced m t alloc (.emplacing name type args) .signalling { m with
        txQueues := m.txQueues.set type (m.txQueues.get type ++ [⟨m.nextAddr, packet⟩])
        nextAddr := m.nextAddr + 1
        log := m.log ++ [.posted name ⟨m.nextAddr, packet⟩] }
  | signalled : Emplaced m t alloc .signalling .unlocking m.signalPacketPosted
  | unlocked {l} : m.txLock.release t = some l → Emplaced m t alloc .unlocking .idle { m with txLock := l }

theorem emplaceStep_cases {m m' : PacketMuxer} {t : MuxerThread} {alloc : Bool} {pc pc' : PostPc}
    (run : m.emplaceStep t alloc pc = some (pc', m')) : Emplaced m t alloc pc pc' m' := by
  cases pc with
  | idle => simp [emplaceStep] at run
  | locking name type args =>
    obtain ⟨l, lock, result⟩ := Option.bind_eq_some_iff.mp run
    cases Option.some.inj result
    exact .locked lock
  | emplacing name type args =>
    simp only [emplaceStep] at run
    split at run
    · rename_i failed
      cases Option.some.inj run
      exact .threw failed
    · rename_i packet built
      cases Option.some.inj run
      cases alloc with
      | false => simp at built
      | true => exact .emplaced rfl built
  | signalling => cases Option.some.inj run; exact .signalled
  | unlocking =>
    obtain ⟨l, lock, result⟩ := Option.bind_eq_some_iff.mp run
    cases Option.some.inj result
    exact .unlocked lock

/-- Everything a step of the process can do, guards included. -/
inductive Effect (ids : IdManager) (m : PacketMuxer) : MuxerAction → PacketMuxer → Prop
  | threw {i name args} : ids.toId name = none → Effect ids m (.post i name args) m
  | called {i name type args} : m.users i = .idle → ids.toId name = some type →
      Effect ids m (.post i name args) { m with users := Function.update m.users i (.locking name type args) }
  | user {i alloc pc m'} : Emplaced m (.user i) alloc (m.users i) pc m' →
      Effect ids m (.user i alloc) { m' with users := Function.update m'.users i pc }
  | entered {type} : m.send = .entered → ids.toId IdManager.controlString = some type →
      Effect ids m .send { m with
        send := .hello (.locking IdManager.controlString type ControlMessage.hello.args) }
  | hello {pc pc' m'} : m.send = .hello pc → Emplaced m .send true pc pc' m' →
      Effect ids m .send { m' with send := .hello pc' }
  | greeted : m.send = .hello .idle → Effect ids m .send { m with send := .lock }
  | locked {l} : m.send = .lock → m.txLock.acquire .send = some l →
      Effect ids m .send { m with txLock := l, send := .test }
  | continues : m.send = .test → m.transportError = false → Effect ids m .send { m with send := .compare }
  | stops : m.send = .test → m.transportError = true → Effect ids m .send { m with send := .unlock }
  | waits {l} : m.send = .compare → m.numPosted = m.numSent → m.txLock.release .send = some l →
      Effect ids m .send { m with txLock := l, send := .waiting false }
  | busy : m.send = .compare → m.numPosted ≠ m.numSent → Effect ids m .send { m with send := .scan }
  | woken {notified timeout} : m.send = .waiting notified →
      Effect ids m (.wake timeout) { m with send := .relock timeout }
  | relocked {l} : m.send = .relock false → m.txLock.acquire .send = some l →
      Effect ids m .send { m with txLock := l, send := .scan }
  | timedOut {l type} : m.send = .relock true → m.txLock.acquire .send = some l →
      ids.toId IdManager.controlString = some type →
      Effect ids m .send { m with
        txLock := l
        send := .heartBeat (.locking IdManager.controlString type ControlMessage.heartBeat.args) }
  | heartBeat {pc pc' m'} : m.send = .heartBeat pc → Emplaced m .send true pc pc' m' →
      Effect ids m .send { m' with send := .heartBeat pc' }
  | beaten : m.send = .heartBeat .idle → Effect ids m .send { m with send := .scan }
  | iterates {types} : m.send = .scan → types.Perm m.txQueues.keys →
      Effect ids m (.iterate types) { m with send := .visit types }
  | passed : m.send = .visit [] → Effect ids m .send { m with send := .test }
  | visits {type types} : m.send = .visit (type :: types) →
      Effect ids m .send { m with send := .drain type types }
  | drained {type types} : m.send = .drain type types →
      m.transportError = true ∨ m.txQueues.get type = [] → Effect ids m .send { m with send := .visit types }
  | handed {type types packet packets} : m.send = .drain type types → m.transportError = false →
      m.txQueues.get type = packet :: packets → packet.packet.type ≠ IdManager.invalidPacket →
      Effect ids m .send { m with
        send := .write type types packet.packet.fields true
        log := m.log ++ [.handed packet] }
  | asserted {type types packet packets} : m.send = .drain type types → m.transportError = false →
      m.txQueues.get type = packet :: packets → packet.packet.type = IdManager.invalidPacket →
      Effect ids m .send { m with send := .aborted type, log := m.log ++ [.handed packet] }
  | skipped {type types fields ok} : m.send = .write type types ([] :: fields) ok →
      Effect ids m .send { m with send := .write type types fields ok }
  | failed {type types buffer fields ok} : m.send = .write type types (buffer :: fields) ok → buffer ≠ [] →
      Effect ids m (.write .error) { m with send := .write type types fields false }
  | accepted {type types buffer fields ok n} : m.send = .write type types (buffer :: fields) ok → buffer ≠ [] →
      m.transportError = false →
      Effect ids m (.write (.count n)) { m with
        wire := m.wire ++ buffer.take n
        send := .write type types (buffer.drop n :: fields) ok }
  | interrupted {type types buffer fields ok n} : m.send = .write type types (buffer :: fields) ok → buffer ≠ [] →
      m.transportError = true →
      Effect ids m (.write (.count n)) { m with
        wire := m.wire ++ buffer.take n
        send := .write type types fields false }
  | finished {type types ok} : m.send = .write type types [] ok →
      Effect ids m .send { m with send := .assign type types ok }
  | assigned {type types ok} : m.send = .assign type types ok →
      Effect ids m .send { m with
        transportError := !ok
        written := if ok then m.written ++ (m.txQueues.get type).take 1 else m.written
        send := .pop type types }
  | popped {type types packet packets} : m.send = .pop type types → m.txQueues.get type = packet :: packets →
      Effect ids m .send { m with
        txQueues := m.txQueues.set type packets
        numSent := m.numSent + 1
        send := .drain type types
        log := m.log ++ [.popped packet] }
  | unlocked {l} : m.send = .unlock → m.txLock.release .send = some l →
      Effect ids m .send { m with txLock := l, send := .exited }
  | destroy : m.destructor = .notCalled → Effect ids m .destroy { m with destructor := .locking }
  | destroyLocked {l} : m.destructor = .locking → m.txLock.acquire .destructor = some l →
      Effect ids m .destroyed { m with txLock := l, destructor := .storing }
  | destroyStored : m.destructor = .storing →
      Effect ids m .destroyed { m with transportError := true, destructor := .unlocking }.notify
  | destroyUnlocked {l} : m.destructor = .unlocking → m.txLock.release .destructor = some l →
      Effect ids m .destroyed { m with txLock := l, destructor := .joining }
  | destroyJoined : m.destructor = .joining → m.send = .exited →
      Effect ids m .destroyed { m with destructor := .returned }

theorem sendStep_effect {ids : IdManager} {m m' : PacketMuxer} (run : m.sendStep ids = some m') :
    Effect ids m .send m' := by
  unfold sendStep at run
  split at run
  · rename_i at_pc
    obtain ⟨type, control, rfl⟩ := Option.map_eq_some_iff.mp run
    exact .entered at_pc control
  · rename_i at_pc
    cases Option.some.inj run
    exact .greeted at_pc
  · rename_i pc _ at_pc
    obtain ⟨⟨pc', next⟩, emplace, rfl⟩ := Option.map_eq_some_iff.mp run
    exact .hello at_pc (emplaceStep_cases emplace)
  · rename_i at_pc
    obtain ⟨l, lock, rfl⟩ := Option.map_eq_some_iff.mp run
    exact .locked at_pc lock
  · rename_i at_pc
    cases Option.some.inj run
    split
    · rename_i flag
      exact .continues at_pc flag
    · rename_i flag
      exact .stops at_pc (by simpa using flag)
  · rename_i at_pc
    split at run
    · rename_i equal
      obtain ⟨l, lock, rfl⟩ := Option.map_eq_some_iff.mp run
      exact .waits at_pc equal lock
    · rename_i different
      cases Option.some.inj run
      exact .busy at_pc different
  · rename_i timeout at_pc
    obtain ⟨l, lock, rest⟩ := Option.bind_eq_some_iff.mp run
    cases timeout with
    | false =>
      cases Option.some.inj rest
      exact .relocked at_pc lock
    | true =>
      obtain ⟨type, control, rfl⟩ := Option.map_eq_some_iff.mp rest
      exact .timedOut at_pc lock control
  · rename_i at_pc
    cases Option.some.inj run
    exact .beaten at_pc
  · rename_i pc _ at_pc
    obtain ⟨⟨pc', next⟩, emplace, rfl⟩ := Option.map_eq_some_iff.mp run
    exact .heartBeat at_pc (emplaceStep_cases emplace)
  · rename_i at_pc
    cases Option.some.inj run
    exact .passed at_pc
  · rename_i type types at_pc
    cases Option.some.inj run
    exact .visits at_pc
  · rename_i type types at_pc
    split at run
    · rename_i packet packets flag queue
      cases Option.some.inj run
      split
      · rename_i invalid
        exact .asserted at_pc flag queue invalid
      · rename_i valid
        exact .handed at_pc flag queue valid
    · rename_i other
      cases Option.some.inj run
      refine .drained at_pc ?_
      cases flag : m.transportError with
      | true => exact Or.inl rfl
      | false =>
        cases queue : m.txQueues.get type with
        | nil => exact Or.inr rfl
        | cons packet packets => exact absurd queue (other packet packets flag)
  · rename_i at_pc
    cases Option.some.inj run
    exact .finished at_pc
  · rename_i at_pc
    cases Option.some.inj run
    exact .skipped at_pc
  · rename_i at_pc
    cases Option.some.inj run
    exact .assigned at_pc
  · rename_i type types at_pc
    split at run
    · simp at run
    · rename_i packet packets queue
      cases Option.some.inj run
      exact .popped at_pc queue
  · rename_i at_pc
    obtain ⟨l, lock, rfl⟩ := Option.map_eq_some_iff.mp run
    exact .unlocked at_pc lock
  · simp at run

theorem writeStep_effect {ids : IdManager} {m m' : PacketMuxer} {answer : IoResult}
    (run : m.writeStep answer = some m') : Effect ids m (.write answer) m' := by
  unfold writeStep at run
  split at run
  · rename_i type types byte buffer fields ok at_pc
    cases answer with
    | error =>
      cases Option.some.inj run
      exact .failed at_pc nofun
    | count n =>
      cases Option.some.inj run
      split
      · rename_i flag
        exact .interrupted at_pc nofun flag
      · rename_i flag
        exact .accepted at_pc nofun (by simpa using flag)
  · simp at run

theorem destructorStep_effect {ids : IdManager} {m m' : PacketMuxer} (run : m.destructorStep = some m') :
    Effect ids m .destroyed m' := by
  unfold destructorStep at run
  split at run
  · rename_i at_pc
    obtain ⟨l, lock, rfl⟩ := Option.map_eq_some_iff.mp run
    exact .destroyLocked at_pc lock
  · rename_i at_pc
    cases Option.some.inj run
    exact .destroyStored at_pc
  · rename_i at_pc
    obtain ⟨l, lock, rfl⟩ := Option.map_eq_some_iff.mp run
    exact .destroyUnlocked at_pc lock
  · rename_i at_pc
    split at run
    · rename_i exited
      cases Option.some.inj run
      exact .destroyJoined at_pc exited
    · simp at run
  · simp at run

/-- Inversion: every step has one of the effects. -/
theorem step_effect {ids : IdManager} {m m' : PacketMuxer} {action : MuxerAction}
    (run : step ids m action = some m') : Effect ids m action m' := by
  unfold step at run
  split at run
  · simp at run
  · rename_i i name args _
    split at run
    · rename_i idle
      split at run
      · rename_i refused
        cases Option.some.inj run
        exact .threw refused
      · rename_i type issued
        cases Option.some.inj run
        exact .called idle issued
    · simp at run
  · obtain ⟨⟨pc, next⟩, emplace, rfl⟩ := Option.map_eq_some_iff.mp run
    exact .user (emplaceStep_cases emplace)
  · exact sendStep_effect run
  · rename_i at_pc
    cases Option.some.inj run
    exact .woken at_pc
  · rename_i at_pc
    split at run
    · rename_i perm
      cases Option.some.inj run
      exact .iterates at_pc perm
    · simp at run
  · exact writeStep_effect run
  · split at run
    · rename_i at_pc
      cases Option.some.inj run
      exact .destroy at_pc
    · simp at run
  · exact destructorStep_effect run
  · simp at run

end PacketComms.PacketMuxer
