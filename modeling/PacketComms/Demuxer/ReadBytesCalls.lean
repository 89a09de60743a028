import PacketComms.Demuxer.ReadBytes
import PacketComms.Demuxer.Reading

namespace PacketComms

namespace ReadBytes

variable {onZero : Bool} {memory : Memory Byte} {buffer : Nat} {c : ReadBytes}

/-- The call has stored `stored`, and the cursor is behind that. -/
def Stands (c : ReadBytes) (memory : Memory Byte) (buffer : Nat) (stored : List Byte) : Prop :=
  c.memory = memory.store buffer stored ∧ c.buffer = buffer + stored.length

/-- The transport gives `n` bytes, and the loop takes them into account. -/
theorem Stands.turn {stored : List Byte} (stands : c.Stands memory buffer stored) (at_pc : c.pc = .read) {n : Nat}
    (small : n < 2 ^ 31) (asked : n ≤ c.size.toNat) (there : n ≤ c.input.length)
    (allowed : ¬ (n = 0 ∧ onZero = true)) :
    ∃ c', (∀ T : TransitionSystem ReadBytes ReadBytesAction, T.step = step onZero →
        T.run c [.read (Int32.ofNat n), .go] = some c') ∧
      c'.pc = .test ∧ c'.Stands memory buffer (stored ++ c.input.take n) ∧ c'.size.toNat = c.size.toNat - n ∧
      c'.input = c.input.drop n ∧ c'.transportError = c.transportError := by
  have clamp : (Int32.ofNat n).toNatClampNeg = n := Int32.toNatClampNeg_ofNat_of_lt small
  have value : (Int32.ofNat n).toInt = n := Int32.toInt_ofNat_of_lt small
  have zero : ¬ (Int32.ofNat n = 0 ∧ onZero = true) := by
    rintro ⟨none, error⟩
    exact allowed ⟨by rw [← clamp, none]; rfl, error⟩
  have read : step onZero c (.read (Int32.ofNat n)) = some { c with
      memory := c.memory.store c.buffer (c.input.take n), input := c.input.drop n, pc := .got (Int32.ofNat n) } := by
    have effect : Effect onZero c (.read (Int32.ofNat n)) _ := .read at_pc (by omega) (by omega) (by omega)
    rw [clamp] at effect
    exact effect.run
  have got {d : ReadBytes} (there : d.pc = .got (Int32.ofNat n)) : step onZero d .go = some { d with
      size := d.size - (Int32.ofNat n).toInt64.toUInt64, buffer := d.buffer + n, pc := .test } := by
    have effect : Effect onZero d .go _ := .got there (by omega) zero
    rw [clamp] at effect
    exact effect.run
  have left : (c.size - (Int32.ofNat n).toInt64.toUInt64).toNat = c.size.toNat - n := by
    rw [toNat_size_sub (by omega) (clamp.trans_le asked), clamp]
  have length : (c.input.take n).length = n := List.length_take_of_le there
  obtain ⟨before, cursor⟩ := stands
  refine ⟨{ c with
    memory := c.memory.store c.buffer (c.input.take n)
    buffer := c.buffer + n
    size := c.size - (Int32.ofNat n).toInt64.toUInt64
    input := c.input.drop n
    pc := .test }, fun T code => ?_, rfl, ⟨?_, ?_⟩, left, rfl, rfl⟩
  · simp only [TransitionSystem.run, code, read, got, Option.bind_some]
  · rw [Memory.store_append, ← before, ← cursor]
  · rw [List.length_append, length, ← Nat.add_assoc, ← cursor]

/-- The transport gives nothing, and that is an error. -/
theorem run_fail {T : TransitionSystem ReadBytes ReadBytesAction} (code : T.step = step onZero) {n : Int32}
    (at_pc : c.pc = .read) (result : n = -1 ∨ n = 0 ∧ onZero = true) :
    T.run c [.read n, .go] = some { c with transportError := true, pc := .returned false } := by
  have nothing : n.toNatClampNeg = 0 := by
    rcases result with rfl | ⟨rfl, -⟩ <;> rfl
  have least : -1 ≤ n.toInt ∧ n.toInt ≤ 0 := by
    rcases result with rfl | ⟨rfl, -⟩ <;> decide
  have failed : n < 0 ∨ n = 0 ∧ onZero = true := by
    rcases result with rfl | zero
    · exact Or.inl (by decide)
    · exact Or.inr zero
  have read : step onZero c (.read n) = some { c with pc := .got n } := by
    have effect : Effect onZero c (.read n) _ := .read at_pc least.1 (by omega) (by omega)
    simp only [nothing, List.take_zero, Memory.store_nil, List.drop_zero] at effect
    exact effect.run
  have got : step onZero { c with pc := .got n } .go =
      some { c with transportError := true, pc := .returned false } := by
    simp only [step, if_pos failed]
  simp only [TransitionSystem.run, code, read, got, Option.bind_some]

/-- Behind the loop. -/
theorem run_check {T : TransitionSystem ReadBytes ReadBytesAction} (code : T.step = step onZero) (at_pc : c.pc = .test)
    (reason : c.size.toNat = 0 ∨ c.transportError = true) :
    T.run c [.go, .go] = some { c with pc := .returned !c.transportError } := by
  have leaves : Effect onZero c .go _ := .leaves at_pc reason
  have check : step onZero { c with pc := .check } .go = some { c with pc := .returned !c.transportError } := by
    cases c.transportError <;> simp [step]
  simp only [TransitionSystem.run, code, leaves.run, check, Option.bind_some]

/-- Left alone, the call comes to what the function gives. -/
def Computes (T : TransitionSystem ReadBytes ReadBytesAction) (c : ReadBytes) (memory : Memory Byte) (buffer : Nat)
    (ok : Bool) (done : ReadDone) : Prop :=
  ∃ actions c', T.run c actions = some c' ∧ c'.pc = .returned ok ∧ c'.Stands memory buffer done.buffer ∧
    c'.size.toNat = done.size ∧ c'.input = done.input ∧ c'.transportError = done.transportError

theorem computes_done {T : TransitionSystem ReadBytes ReadBytesAction} (code : T.step = step onZero)
    {answers : List IoResult} {stored : List Byte} (at_pc : c.pc = .test) (stands : c.Stands memory buffer stored)
    (reason : ¬ (c.size.toNat > 0 ∧ c.transportError = false)) {ok : Bool}
    (returned : (PacketDemuxer.readBytes onZero c.transportError c.size.toNat c.input stored answers).status =
      .returned ok) :
    Computes T c memory buffer ok
      (PacketDemuxer.readBytes onZero c.transportError c.size.toNat c.input stored answers) := by
  have call : PacketDemuxer.readBytes onZero c.transportError c.size.toNat c.input stored answers =
      ⟨stored, c.size.toNat, c.input, c.transportError, .returned !c.transportError, answers⟩ := by
    cases answers <;> simp only [PacketDemuxer.readBytes, if_neg reason]
  rw [call] at returned ⊢
  cases returned
  have leaves : c.size.toNat = 0 ∨ c.transportError = true := by
    rcases Nat.eq_zero_or_pos c.size.toNat with none | more
    · exact Or.inl none
    · exact Or.inr (by simpa [more] using reason)
  exact ⟨_, _, run_check code at_pc leaves, rfl, stands, rfl, rfl, rfl⟩

/-- A call in which no byte arrives and nobody else raises the flag does what the function computes. -/
theorem computes {T : TransitionSystem ReadBytes ReadBytesAction} (code : T.step = step onZero)
    {answers : List IoResult} (int : ∀ n, .count n ∈ answers → n < 2 ^ 31) {stored : List Byte} (at_pc : c.pc = .test)
    (stands : c.Stands memory buffer stored) {ok : Bool}
    (returned : (PacketDemuxer.readBytes onZero c.transportError c.size.toNat c.input stored answers).status =
      .returned ok) :
    Computes T c memory buffer ok
      (PacketDemuxer.readBytes onZero c.transportError c.size.toNat c.input stored answers) := by
  induction answers generalizing c stored with
  | nil =>
    by_cases more : c.size.toNat > 0 ∧ c.transportError = false
    · simp only [PacketDemuxer.readBytes, if_pos more] at returned
      cases returned
    · exact computes_done code at_pc stands more returned
  | cons answer answers ih =>
    by_cases more : c.size.toNat > 0 ∧ c.transportError = false
    · have reads : Effect onZero c .go _ := .reads at_pc more.1 more.2
      have first : T.run c [.go] = some { c with pc := .read } := by
        simp only [TransitionSystem.run, code, reads.run, Option.bind_some]
      simp only [PacketDemuxer.readBytes, if_pos more] at returned ⊢
      cases answer with
      | error =>
        cases returned
        exact ⟨_, _, TransitionSystem.run_trans first (run_fail code rfl (Or.inl rfl)), rfl, stands, rfl, rfl, rfl⟩
      | count n =>
        dsimp only at returned ⊢
        split at returned
        · rename_i zero
          rw [if_pos zero]
          cases returned
          exact ⟨_, _, TransitionSystem.run_trans first (run_fail code rfl (Or.inr ⟨rfl, zero.2⟩)), rfl, stands,
            rfl, rfl, rfl⟩
        · rename_i allowed
          rw [if_neg allowed]
          have taken : c.input.take (min n c.size.toNat) =
              c.input.take (c.input.take (min n c.size.toNat)).length := by
            rw [List.length_take, ← List.take_eq_take_min]
          generalize count : (c.input.take (min n c.size.toNat)).length = k at *
          rw [List.length_take] at count
          have bound := int n List.mem_cons_self
          have reading : Stands { c with pc := .read } memory buffer stored := stands
          obtain ⟨c', second, test, stands', left, rest, flag⟩ := reading.turn (n := k) rfl (by omega)
            (by dsimp only; omega) (by dsimp only; omega) allowed
          rw [taken, ← left, ← rest, ← flag] at returned ⊢
          obtain ⟨more, c'', third, last⟩ :=
            ih (fun m member => int m (List.mem_cons_of_mem _ member)) test stands' returned
          exact ⟨_, c'', TransitionSystem.run_trans first (TransitionSystem.run_trans (second T code) third), last⟩
    · exact computes_done code at_pc stands more returned

end ReadBytes

/-- The place of the thread within `readBytes`. -/
def ReceivePc.place : ReceivePc → ReadBytesPc
  | .test _ _ _ _ => .test
  | .read _ _ _ _ => .read
  | _ => .check

namespace PacketDemuxer

/-- The call `c`, made with the memory as `memory` and for the bytes behind `buffer`, is where
the receive thread is, with `stored` read and `size` bytes missing. -/
structure InCall (memory : Memory Byte) (buffer : Nat) (stored : List Byte) (size : Nat) (d : PacketDemuxer)
    (c : ReadBytes) : Prop where
  pc : c.pc = d.receive.place
  stands : c.Stands memory buffer stored
  missing : c.size.toNat = size
  flag : c.transportError = d.transportError
  input : c.input = d.input

/-- Some call of `readBytes` can have come to where the receive thread is. -/
def Calling (memory : Memory Byte) (buffer : Nat) (d : PacketDemuxer) : Prop :=
  ∀ field stored size, d.receive.reading = some (field, stored, size) → ∃ requested flag input c,
    (ReadBytes.system field.onZero memory buffer requested flag input).Reach c ∧ InCall memory buffer stored size d c

variable {memory : Memory Byte} {buffer : Nat}

/-- The thread stays in its call, which goes on by the actions given. -/
theorem Calling.goesOn {d d' : PacketDemuxer} (calling : Calling memory buffer d) (actions : List ReadBytesAction)
    (run : ∀ field stored' size', d'.receive.reading = some (field, stored', size') →
      ∃ stored size, d.receive.reading = some (field, stored, size) ∧ ∀ c, InCall memory buffer stored size d c →
        ∃ c', (∀ requested flag input,
          (ReadBytes.system field.onZero memory buffer requested flag input).run c actions = some c') ∧
          InCall memory buffer stored' size' d' c') : Calling memory buffer d' := by
  intro field stored' size' call
  obtain ⟨stored, size, before, steps⟩ := run field stored' size' call
  obtain ⟨requested, flag, input, c, reach, same⟩ := calling field stored size before
  obtain ⟨c', last, same'⟩ := steps c same
  exact ⟨requested, flag, input, c', reach.run (fun _ _ _ => trivial) (last requested flag input), same'⟩

theorem Calling.unseen {d d' : PacketDemuxer} (calling : Calling memory buffer d) (receive : d'.receive = d.receive)
    (flag : d'.transportError = d.transportError) (input : d'.input = d.input) : Calling memory buffer d' := by
  refine calling.goesOn [] (fun field stored size call => ⟨stored, size, by rw [← receive]; exact call, ?_⟩)
  intro c same
  exact ⟨c, fun _ _ _ => rfl, by rw [receive]; exact same.pc, same.stands, same.missing,
    by rw [flag]; exact same.flag, by rw [input]; exact same.input⟩

/-- A buffer has at most the length that the constructor of a packet accepts. -/
theorem ReadInv.small {d : PacketDemuxer} (inv : ReadInv d) {field : Field} {stored : List Byte} {size : Nat}
    (call : d.receive.reading = some (field, stored, size)) : size < 2 ^ 31 := by
  have fits := (inv.reading field stored size call).1
  cases field <;> simp only [Field.Fits] at fits <;> omega

/-- A call begins. -/
theorem Calling.begin {d : PacketDemuxer} {caller : Caller} {field : Field} {size : Nat}
    (at_pc : d.receive = .test caller field [] size) (inv : ReadInv d) : Calling memory buffer d := by
  intro field' stored size' call
  have small := inv.small call
  rw [at_pc] at call
  cases call
  refine ⟨UInt64.ofNat size, d.transportError, d.input, _, .start, ?_, ⟨?_, rfl⟩, ?_, rfl, rfl⟩
  · rw [at_pc]; rfl
  · exact (memory.store_nil buffer).symm
  · exact UInt64.toNat_ofNat_of_lt' (small.trans (by decide))

theorem Effect.calling {ids : IdManager} {d d' : PacketDemuxer} {action : DemuxerAction}
    (calling : Calling memory buffer d) (inv : ReadInv d) (inv' : ReadInv d') (effect : Effect ids d action d') :
    Calling memory buffer d' := by
  cases effect with
  | unknown => exact calling
  | subscribed | constructed | moveConstructed | moveAssigned | destructedNull | warned | joined =>
    exact calling.unseen rfl rfl rfl
  | destructed _ same =>
    subst same
    split
    · exact calling.unseen (by simp) (by simp) (by simp)
    · exact calling.unseen rfl rfl rfl
  | readied | typed | sized => exact Calling.begin rfl inv'
  | timedOut | failed | refused | threw | asserted | greeted | rejected | crashed | continues | exits | handled
  | dispatched => nofun
  | @received caller => cases caller <;> nofun
  | @arrived bytes =>
    refine calling.goesOn [.arrive bytes] (fun field stored size call => ⟨stored, size, call, ?_⟩)
    intro c same
    exact ⟨_, fun _ _ _ => rfl, same.pc, same.stands, same.missing, same.flag,
      congrArg (· ++ bytes) same.input⟩
  | destroys =>
    refine calling.goesOn [.signal] (fun field stored size call => ⟨stored, size, call, ?_⟩)
    intro c same
    exact ⟨_, fun _ _ _ => rfl, same.pc, same.stands, same.missing, rfl, same.input⟩
  | @reads caller field stored size at_pc more flag =>
    refine calling.goesOn [.go] ?_
    intro field' stored' size' call
    cases call
    refine ⟨stored, size, by rw [at_pc]; rfl, fun c same => ?_⟩
    have pc : c.pc = .test := by rw [same.pc, at_pc]; rfl
    have reads : ReadBytes.Effect field.onZero c .go _ := .reads pc (same.missing ▸ more) (same.flag.trans flag)
    refine ⟨{ c with pc := .read }, fun _ _ _ => ?_, rfl, same.stands, same.missing, same.flag, same.input⟩
    simp only [TransitionSystem.run, ReadBytes.system, reads.run, Option.bind_some]
  | @leaves caller field stored size at_pc reason =>
    refine calling.goesOn [.go] ?_
    intro field' stored' size' call
    cases call
    refine ⟨stored, size, by rw [at_pc]; rfl, fun c same => ?_⟩
    have pc : c.pc = .test := by rw [same.pc, at_pc]; rfl
    have leaves : ReadBytes.Effect field.onZero c .go _ := .leaves pc (by rw [same.missing, same.flag]; exact reason)
    refine ⟨{ c with pc := .check }, fun _ _ _ => ?_, rfl, same.stands, same.missing, same.flag,
      same.input⟩
    simp only [TransitionSystem.run, ReadBytes.system, leaves.run, Option.bind_some]
  | @got caller field stored size n at_pc asked there =>
    have small := inv.small (by rw [at_pc]; rfl)
    refine calling.goesOn [.read (Int32.ofNat n), .go] ?_
    intro field' stored' size' call
    cases call
    refine ⟨stored, size, by rw [at_pc]; rfl, fun c same => ?_⟩
    have pc : c.pc = .read := by rw [same.pc, at_pc]; rfl
    have fits : n ≤ c.size.toNat := by rw [same.missing]; exact asked
    have enough : n ≤ c.input.length := by rw [same.input]; exact there
    have allowed : ¬ (n = 0 ∧ field.onZero = true) := by simp [field.onZero_eq]
    obtain ⟨c', run, test, stands, left, rest, flag⟩ := same.stands.turn pc (by omega) fits enough allowed
    refine ⟨c', fun _ _ _ => run _ rfl, test, ?_, ?_, ?_, ?_⟩
    · rw [← same.input]
      exact stands
    · rw [left, same.missing]
    · exact flag.trans same.flag
    · rw [rest, same.input]

/-- What the receive thread does in a call of `readBytes` is what such a call does, wherever
the buffer lies. -/
theorem reach_calling {ids : IdManager} {C : PacketDemuxer → DemuxerAction → Prop} {d : PacketDemuxer}
    (reach : (system ids).ReachUnder C d) (memory : Memory Byte) (buffer : Nat) : Calling memory buffer d := by
  refine reach.invariant nofun ?_
  intro _ _ _ before calling met run
  exact (step_effect run).calling calling (reach_readInv before) (reach_readInv (before.next met run))

end PacketDemuxer

end PacketComms
