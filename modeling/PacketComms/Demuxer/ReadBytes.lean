import PacketComms.Bytes
import PacketComms.Lib.Memory
import PacketComms.Lib.TransitionSystem

namespace PacketComms

/-- Where a call of `readBytes` is: at the head of its loop, in `read`, behind that with the
result `n`, behind the loop. -/
inductive ReadBytesPc
  | test
  | read
  | got (n : Int32)
  | check
  | returned (ok : Bool)
  deriving DecidableEq

/-- A call of `readBytes`. `buffer` is the parameter, which the loop moves on, `size` the
caller's variable. `arrived` is what the transport had to give when the call began and all
that has come since, `input` what it has still to give. -/
structure ReadBytes where
  memory : Memory Byte
  buffer : Nat
  size : UInt64
  transportError : Bool
  arrived : List Byte
  input : List Byte
  pc : ReadBytesPc

/-- `go` is a step of the thread that leaves no choice, `read n` the return of `read`, and
`signal` the assignment of `m_transportError` by another thread. -/
inductive ReadBytesAction
  | go
  | read (n : Int32)
  | arrive (bytes : List Byte)
  | signal

namespace ReadBytes

/-- `read` returns -1, or the number of the bytes it has put into the buffer, at most `size`
of them. -/
def step (onZero : Bool) (c : ReadBytes) : ReadBytesAction → Option ReadBytes
  | .go =>
    match c.pc with
    | .test => some { c with pc := if c.size > 0 ∧ c.transportError = false then .read else .check }
    | .got n =>
      if n < 0 ∨ (n = 0 ∧ onZero) then some { c with transportError := true, pc := .returned false }
      else
        some { c with
          size := c.size - n.toInt64.toUInt64
          buffer := c.buffer + n.toNatClampNeg
          pc := .test }
    | .check => some { c with pc := .returned (if c.transportError then false else true) }
    | _ => none
  | .read n =>
    match c.pc with
    | .read =>
      if -1 ≤ n.toInt ∧ n.toInt ≤ c.size.toNat ∧ n.toNatClampNeg ≤ c.input.length then
        some { c with
          memory := c.memory.store c.buffer (c.input.take n.toNatClampNeg)
          input := c.input.drop n.toNatClampNeg
          pc := .got n }
      else none
    | _ => none
  | .arrive bytes => some { c with arrived := c.arrived ++ bytes, input := c.input ++ bytes }
  | .signal => some { c with transportError := true }

/-- A call that has just been made. -/
def system (onZero : Bool) (memory : Memory Byte) (buffer : Nat) (size : UInt64) (transportError : Bool)
    (input : List Byte) : TransitionSystem ReadBytes ReadBytesAction where
  start := ⟨memory, buffer, size, transportError, input, input, .test⟩
  step := step onZero

/-- Everything a step of the call can do, guards included. -/
inductive Effect (onZero : Bool) (c : ReadBytes) : ReadBytesAction → ReadBytes → Prop
  | reads : c.pc = .test → 0 < c.size.toNat → c.transportError = false →
      Effect onZero c .go { c with pc := .read }
  | leaves : c.pc = .test → c.size.toNat = 0 ∨ c.transportError = true →
      Effect onZero c .go { c with pc := .check }
  | read {n : Int32} : c.pc = .read → -1 ≤ n.toInt → n.toInt ≤ c.size.toNat → n.toNatClampNeg ≤ c.input.length →
      Effect onZero c (.read n) { c with
        memory := c.memory.store c.buffer (c.input.take n.toNatClampNeg)
        input := c.input.drop n.toNatClampNeg
        pc := .got n }
  | signalled {n} : c.pc = .got n → n < 0 ∨ (n = 0 ∧ onZero = true) →
      Effect onZero c .go { c with transportError := true, pc := .returned false }
  | got {n} : c.pc = .got n → 0 ≤ n.toInt → ¬ (n = 0 ∧ onZero = true) →
      Effect onZero c .go { c with
        size := c.size - n.toInt64.toUInt64
        buffer := c.buffer + n.toNatClampNeg
        pc := .test }
  | refused : c.pc = .check → c.transportError = true → Effect onZero c .go { c with pc := .returned false }
  | accepted : c.pc = .check → c.transportError = false → Effect onZero c .go { c with pc := .returned true }
  | arrived {bytes} :
      Effect onZero c (.arrive bytes) { c with arrived := c.arrived ++ bytes, input := c.input ++ bytes }
  | raised : Effect onZero c .signal { c with transportError := true }

theorem step_effect {onZero : Bool} {c c' : ReadBytes} {action : ReadBytesAction}
    (run : step onZero c action = some c') : Effect onZero c action c' := by
  cases action with
  | go =>
    cases at_pc : c.pc with
    | test =>
      simp only [step, at_pc] at run
      cases Option.some.inj run
      split
      · rename_i more
        exact .reads at_pc (UInt64.lt_iff_toNat_lt.mp more.1) more.2
      · rename_i done
        refine .leaves at_pc ?_
        cases flag : c.transportError with
        | true => exact Or.inr rfl
        | false =>
          have positive : ¬ 0 < c.size.toNat := fun more => done ⟨UInt64.lt_iff_toNat_lt.mpr more, flag⟩
          exact Or.inl (by omega)
    | got n =>
      simp only [step, at_pc] at run
      split at run
      · rename_i failed
        cases Option.some.inj run
        exact .signalled at_pc failed
      · rename_i good
        cases Option.some.inj run
        refine .got at_pc ?_ (fun zero => good (Or.inr zero))
        exact Int.not_lt.mp (fun negative => good (Or.inl (Int32.lt_iff_toInt_lt.mpr negative)))
    | check =>
      simp only [step, at_pc] at run
      cases Option.some.inj run
      split
      · rename_i flag
        exact .refused at_pc flag
      · rename_i flag
        exact .accepted at_pc (by simpa using flag)
    | read | returned => simp [step, at_pc] at run
  | read n =>
    cases at_pc : c.pc with
    | read =>
      simp only [step, at_pc] at run
      split at run
      · rename_i bound
        cases Option.some.inj run
        exact .read at_pc bound.1 bound.2.1 bound.2.2
      · cases run
    | _ => simp [step, at_pc] at run
  | arrive bytes =>
    cases Option.some.inj run
    exact .arrived
  | signal =>
    cases Option.some.inj run
    exact .raised

/-- Each of these effects is that of a step. -/
theorem Effect.run {onZero : Bool} {c c' : ReadBytes} {action : ReadBytesAction} (effect : Effect onZero c action c') :
    step onZero c action = some c' := by
  cases effect with
  | reads at_pc more flag =>
    have positive : c.size > 0 := UInt64.lt_iff_toNat_lt.mpr more
    simp only [step, at_pc, positive, flag, and_self, if_true]
  | leaves at_pc reason =>
    have done : ¬ (c.size > 0 ∧ c.transportError = false) := by
      rintro ⟨more, calm⟩
      have positive := UInt64.lt_iff_toNat_lt.mp more
      rcases reason with none | flag
      · exact absurd positive (by simp [none])
      · exact absurd calm (by simp [flag])
    simp only [step, at_pc, if_neg done]
  | read at_pc least most there =>
    simp only [step, at_pc, if_pos (And.intro least (And.intro most there))]
  | signalled at_pc failed => simp only [step, at_pc, if_pos failed]
  | @got n at_pc least allowed =>
    have good : ¬ (n < 0 ∨ (n = 0 ∧ onZero = true)) := not_or.mpr
      ⟨fun negative => Int.not_lt.mpr least (Int32.lt_iff_toInt_lt.mp negative), allowed⟩
    simp only [step, at_pc, if_neg good]
  | refused at_pc flag => simp [step, at_pc, flag]
  | accepted at_pc flag => simp [step, at_pc, flag]
  | arrived | raised => rfl

/-- The bytes that `read` has put into the buffer and the loop has not yet counted. -/
def pending (c : ReadBytes) : Nat :=
  match c.pc with
  | .got n => n.toNatClampNeg
  | _ => 0

/-- The account of a call for `size` bytes at `buffer`, kept by both cursors: `consumed` has
been taken from the stream. -/
structure Account (memory : Memory Byte) (buffer : Nat) (size : UInt64) (consumed : List Byte) (c : ReadBytes) :
    Prop where
  stream : consumed ++ c.input = c.arrived
  stored : c.memory = memory.store buffer consumed
  moved : c.buffer + c.pending = buffer + consumed.length
  counted : consumed.length + c.size.toNat = size.toNat + c.pending
  bounded : c.pending ≤ c.size.toNat
  done : c.pc = .check → c.size.toNat = 0 ∨ c.transportError = true
  returned : ∀ ok, c.pc = .returned ok → if ok then c.size.toNat = 0 else c.transportError = true

variable {onZero : Bool} {memory : Memory Byte} {buffer : Nat} {size : UInt64} {consumed : List Byte} {c c' : ReadBytes}

/-- A step of the control flow, which moves neither cursor. -/
theorem Account.moveOn (account : Account memory buffer size consumed c) (pc : ReadBytesPc) (flag : Bool)
    (counted : c.pending = 0) (none : ReadBytes.pending { c with transportError := flag, pc := pc } = 0)
    (done : pc = .check → c.size.toNat = 0 ∨ flag = true)
    (returned : ∀ ok, pc = .returned ok → if ok then c.size.toNat = 0 else flag = true) :
    Account memory buffer size consumed { c with transportError := flag, pc := pc } where
  stream := account.stream
  stored := account.stored
  moved := by rw [none, ← counted]; exact account.moved
  counted := by rw [none, ← counted]; exact account.counted
  bounded := by rw [none]; exact Nat.zero_le _
  done := done
  returned := returned

/-- `size -= n`, for an `int` that is not negative. -/
theorem toNat_size_sub {size : UInt64} {n : Int32} (least : 0 ≤ n.toInt) (most : n.toNatClampNeg ≤ size.toNat) :
    (size - n.toInt64.toUInt64).toNat = size.toNat - n.toNatClampNeg := by
  have wide : 0 ≤ n.toInt64 := by
    rw [Int64.le_iff_toInt_le, Int32.toInt_toInt64]
    exact least
  have less : n.toInt64.toUInt64.toNat = n.toNatClampNeg := by
    rw [Int64.toNat_toUInt64_of_le wide, Int32.toNatClampNeg_toInt64]
  rw [UInt64.toNat_sub_of_le _ _ (UInt64.le_iff_toNat_le.mpr (by omega)), less]

theorem Effect.account {action : ReadBytesAction} (account : Account memory buffer size consumed c)
    (effect : Effect onZero c action c') : ∃ consumed', Account memory buffer size consumed' c' := by
  cases effect with
  | reads at_pc =>
    exact ⟨consumed, account.moveOn .read c.transportError (by simp [pending, at_pc]) rfl nofun nofun⟩
  | leaves at_pc reason =>
    exact ⟨consumed, account.moveOn .check c.transportError (by simp [pending, at_pc]) rfl (fun _ => reason) nofun⟩
  | @signalled n at_pc failed =>
    have nothing : n.toNatClampNeg = 0 := by
      rw [← Int32.toNat_toInt]
      rcases failed with negative | ⟨rfl, _⟩
      · have below : n.toInt < 0 := Int32.lt_iff_toInt_lt.mp negative
        omega
      · rfl
    refine ⟨consumed, account.moveOn (.returned false) true (by rw [pending, at_pc]; exact nothing) rfl nofun ?_⟩
    intro ok same
    cases same
    rfl
  | refused at_pc flag =>
    refine ⟨consumed, account.moveOn (.returned false) c.transportError (by simp [pending, at_pc]) rfl nofun ?_⟩
    intro ok same
    cases same
    exact flag
  | accepted at_pc flag =>
    refine ⟨consumed, account.moveOn (.returned true) c.transportError (by simp [pending, at_pc]) rfl nofun ?_⟩
    intro ok same
    cases same
    exact (account.done at_pc).resolve_right (by simp [flag])
  | @read n at_pc least most there =>
    have before : c.pending = 0 := by simp [pending, at_pc]
    have moved := account.moved
    have counted := account.counted
    have length : (consumed ++ c.input.take n.toNatClampNeg).length = consumed.length + n.toNatClampNeg := by
      rw [List.length_append, List.length_take, Nat.min_eq_left there]
    have cursor : c.buffer = buffer + consumed.length := by omega
    refine ⟨consumed ++ c.input.take n.toNatClampNeg, ⟨?_, ?_, ?_, ?_, ?_, nofun, nofun⟩⟩
    · simpa using account.stream
    · rw [Memory.store_append, ← account.stored, cursor]
    · simp only [pending, length]
      omega
    · simp only [pending, length]
      omega
    · simp only [pending, ← Int32.toNat_toInt]
      omega
  | @got n at_pc least _ =>
    have before : c.pending = n.toNatClampNeg := by simp [pending, at_pc]
    have moved := account.moved
    have counted := account.counted
    have bounded := account.bounded
    have left := toNat_size_sub least (before ▸ bounded)
    refine ⟨consumed, ⟨account.stream, account.stored, ?_, ?_, Nat.zero_le _, nofun, nofun⟩⟩
    · simp only [pending]
      omega
    · simp only [pending, left]
      omega
  | arrived =>
    refine ⟨consumed, ⟨?_, account.stored, account.moved, account.counted, account.bounded, account.done,
      account.returned⟩⟩
    rw [← List.append_assoc, account.stream]
  | raised =>
    refine ⟨consumed, ⟨account.stream, account.stored, account.moved, account.counted, account.bounded,
      fun _ => Or.inr rfl, ?_⟩⟩
    intro ok at_pc
    cases ok with
    | true => exact account.returned true at_pc
    | false => rfl

theorem reach_account {transportError : Bool} {input : List Byte}
    (reach : (system onZero memory buffer size transportError input).Reach c) :
    ∃ consumed, Account memory buffer size consumed c := by
  refine reach.invariant (I := fun c => ∃ consumed, Account memory buffer size consumed c) ?_ ?_
  · exact ⟨[], ⟨rfl, (memory.store_nil buffer).symm, rfl, Nat.add_comm _ _, Nat.zero_le _, nofun, nofun⟩⟩
  · intro _ _ _ _ ⟨_, account⟩ _ run
    exact (step_effect run).account account

/-- Whenever the call returns, the bytes it has taken from the stream are those it has stored,
one behind the other from where the buffer began, and what it leaves in `size` is what is missing.
It returns true only when nothing is, and false only with the error signalled. -/
theorem readBytes_accounts {transportError ok : Bool} {input : List Byte}
    (reach : (system onZero memory buffer size transportError input).Reach c) (returned : c.pc = .returned ok) :
    ∃ consumed, consumed ++ c.input = c.arrived ∧ c.memory = memory.store buffer consumed ∧
      c.memory.load buffer consumed.length = consumed ∧ consumed.length + c.size.toNat = size.toNat ∧
      (ok = true → c.size = 0) ∧ (ok = false → c.transportError = true) := by
  obtain ⟨consumed, account⟩ := reach_account reach
  have none : c.pending = 0 := by simp [pending, returned]
  refine ⟨consumed, account.stream, account.stored, ?_, ?_, ?_, ?_⟩
  · rw [account.stored]
    exact memory.load_store buffer consumed
  · have counted := account.counted
    omega
  · rintro rfl
    exact UInt64.toNat_inj.mp (account.returned true returned)
  · rintro rfl
    exact account.returned false returned

/-- Two of three bytes are read; then the destructor is called. -/
theorem readBytes_accounts_interrupted : ∃ c : ReadBytes, c.pc = .returned false ∧
    ∃ consumed, consumed ++ c.input = c.arrived ∧ c.memory = Memory.store (fun _ => 0) 8 consumed ∧
      c.memory.load 8 consumed.length = consumed ∧ consumed.length + c.size.toNat = (3 : UInt64).toNat ∧
      (false = true → c.size = 0) ∧ (false = false → c.transportError = true) := by
  obtain ⟨c, reach, returned⟩ : ∃ c, (system false (fun _ => 0) 8 3 false [7]).Reach c ∧ c.pc = .returned false :=
    TransitionSystem.ReachUnder.start.computed pc
      [.go, .read 1, .go, .go, .arrive [5, 6], .read 1, .go, .signal, .go, .go] (fun _ _ _ => trivial)
      (by decide +kernel)
  exact ⟨c, returned, readBytes_accounts reach returned⟩

end ReadBytes

end PacketComms
