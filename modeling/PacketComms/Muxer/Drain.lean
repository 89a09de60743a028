import PacketComms.Muxer.WriteBytes

namespace PacketComms.PacketMuxer

/-- The answers report a failure before buffers of these sizes are written. -/
def FailsWithin : List Nat → List IoResult → Prop
  | [], _ => False
  | _ :: _, [] => False
  | _ :: _, .error :: _ => True
  | size :: sizes, .count n :: answers =>
    if n < size then FailsWithin ((size - n) :: sizes) answers else FailsWithin sizes answers

/-- The sizes of the buffers that are passed to the transport. Empty ones are not. -/
def bufferSizes (fields : List (List Byte)) : List Nat := (fields.filter (· ≠ [])).map List.length

/-- On these packets nothing keeps `sendAll` from its end: it finds no error noted, and no write fails before those of
the last packet. -/
def Drains (transportError : Bool) (packets : List ComPacket) (answers : List IoResult) : Prop :=
  packets = [] ∨
    transportError = false ∧ ¬ FailsWithin (bufferSizes (packets.dropLast.flatMap ComPacket.fields)) answers

theorem failsWithin_writeBytes {buffer : List Byte} (nonempty : buffer ≠ []) (sizes : List Nat)
    {answers : List IoResult} {ok : Bool} (returned : (writeBytes false buffer answers).status = .returned ok) :
    FailsWithin (buffer.length :: sizes) answers ↔
      ok = false ∨ FailsWithin sizes (writeBytes false buffer answers).rest := by
  obtain ⟨byte, tail, rfl⟩ := List.exists_cons_of_ne_nil nonempty
  clear nonempty
  induction answers generalizing byte tail with
  | nil => cases returned
  | cons answer answers ih =>
    cases answer with
    | error =>
      cases returned
      simp [FailsWithin]
    | count n =>
      simp only [writeBytes, Bool.false_eq_true, if_false] at returned ⊢
      simp only [FailsWithin]
      split
      · rename_i below
        obtain ⟨byte', tail', left⟩ : ∃ byte' tail', (byte :: tail).drop n = byte' :: tail' :=
          List.exists_cons_of_ne_nil (by rw [ne_eq, List.drop_eq_nil_iff]; omega)
        rw [← List.length_drop]
        rw [left] at returned ⊢
        exact ih byte' tail' returned
      · rename_i above
        have all : writeBytes false ((byte :: tail).drop n) answers = ⟨[], 0, .returned true, answers⟩ := by
          rw [List.drop_eq_nil_of_le (by omega)]
          simp [writeBytes]
        rw [all] at returned ⊢
        cases returned
        simp

/-- A frame is written without an error exactly if no answer up to its end is a failure. -/
theorem failsWithin_writeFields (fields : List (List Byte)) (sizes : List Nat) {answers : List IoResult} {ok : Bool}
    (returned : (writeFields false fields answers).status = .returned ok) :
    FailsWithin (bufferSizes fields ++ sizes) answers ↔
      ok = false ∨ FailsWithin sizes (writeFields false fields answers).rest := by
  induction fields generalizing answers ok with
  | nil =>
    cases returned
    simp [bufferSizes, writeFields]
  | cons buffer fields ih =>
    simp only [writeFields, Written.andThen] at returned ⊢
    cases first : (writeBytes false buffer answers).status with
    | running | aborted => simp [first] at returned
    | returned ok₁ =>
      simp only [first] at returned ⊢
      cases second : (writeFields false fields (writeBytes false buffer answers).rest).status with
      | running | aborted => simp [second] at returned
      | returned ok₂ =>
        simp only [second, Status.returned.injEq] at returned
        have rest := ih second
        by_cases empty : buffer = []
        · subst empty
          have skipped : writeBytes false [] answers = ⟨[], 0, .returned true, answers⟩ := by simp [writeBytes]
          rw [skipped] at first rest ⊢
          cases first
          have same : bufferSizes ([] :: fields) = bufferSizes fields := by simp [bufferSizes]
          rw [same, rest, ← returned, Bool.true_and]
        · have step : bufferSizes (buffer :: fields) = buffer.length :: bufferSizes fields := by
            simp [bufferSizes, empty]
          rw [step, List.cons_append, failsWithin_writeBytes empty _ first, rest, ← returned, Bool.and_eq_false_iff,
            or_assoc]

/-- What was sent and what is left are together what was queued. -/
theorem sendAll_numSent (transportError : Bool) (numSent : UInt32) (packets : List ComPacket)
    (answers : List IoResult) : (sendAll transportError numSent packets answers).numSent +
      UInt32.ofNat (sendAll transportError numSent packets answers).packets.length =
        numSent + UInt32.ofNat packets.length := by
  induction packets generalizing transportError numSent answers with
  | nil => simp [sendAll]
  | cons packet packets ih =>
    unfold sendAll
    split
    · rfl
    · dsimp only
      split
      · rw [ih, List.length_cons, UInt32.ofNat_add, UInt32.add_assoc, UInt32.add_comm 1]
        rfl
      · rfl

/-- The queue is empty in the end exactly if nothing kept the loop from draining it. -/
theorem sendAll_packets {transportError : Bool} {numSent : UInt32} {packets : List ComPacket} {answers : List IoResult}
    (returned : (sendAll transportError numSent packets answers).status = .returned true) :
    (sendAll transportError numSent packets answers).packets = [] ↔ Drains transportError packets answers := by
  induction packets generalizing transportError numSent answers with
  | nil => simp [sendAll, Drains]
  | cons packet packets ih =>
    cases transportError with
    | true => simp [sendAll, Drains]
    | false =>
      simp only [sendAll, Bool.false_eq_true, if_false] at returned ⊢
      cases sent : (sendPacket false packet answers).status with
      | running | aborted => simp [sent] at returned
      | returned ok =>
        simp only [sent] at returned ⊢
        rw [ih returned]
        have valid : packet.type ≠ IdManager.invalidPacket := by
          intro invalid
          simp [sendPacket, invalid] at sent
        have frame : sendPacket false packet answers = writeFields false packet.fields answers := by
          simp [sendPacket, valid]
        rw [frame] at sent ⊢
        cases packets with
        | nil => simp [Drains, bufferSizes, FailsWithin]
        | cons next packets =>
          have sizes : bufferSizes ((packet :: next :: packets).dropLast.flatMap ComPacket.fields) =
              bufferSizes packet.fields ++ bufferSizes ((next :: packets).dropLast.flatMap ComPacket.fields) := by
            simp [bufferSizes]
          simp only [Drains, reduceCtorEq, false_or, sizes, failsWithin_writeFields _ _ sent, not_or, Bool.not_eq_false,
            true_and, Bool.not_eq_eq_eq_not, Bool.not_false]

/-- `sendAll` leaves an empty queue, and a difference of the counters that counts the packets of the other types. -/
def EmptiesQueue (transportError : Bool) (numPosted numSent : UInt32) (others : Nat) (packets : List ComPacket)
    (answers : List IoResult) : Prop :=
  (sendAll transportError numSent packets answers).packets = [] ∧
  numPosted - (sendAll transportError numSent packets answers).numSent = UInt32.ofNat others

/-- Whenever `sendAll` returns, on a queue that was counted with `others` packets of other types: it has emptied the
queue exactly if no error was noted before the last packet. -/
theorem empties_queue_iff (transportError : Bool) (numPosted numSent : UInt32) (others : Nat) (packets : List ComPacket)
    (answers : List IoResult) (counted : numPosted - numSent = UInt32.ofNat (packets.length + others))
    (returned : (sendAll transportError numSent packets answers).status = .returned true) :
    EmptiesQueue transportError numPosted numSent others packets answers ↔ Drains transportError packets answers := by
  rw [← sendAll_packets returned]
  constructor
  · exact And.left
  · intro empty
    refine ⟨empty, ?_⟩
    have advanced := sendAll_numSent transportError numSent packets answers
    rw [empty, List.length_nil, show UInt32.ofNat 0 = 0 from rfl, UInt32.add_zero] at advanced
    have posted : numPosted = UInt32.ofNat (packets.length + others) + numSent := UInt32.sub_eq_iff_eq_add.mp counted
    rw [advanced, posted, UInt32.ofNat_add, UInt32.sub_eq_iff_eq_add, UInt32.add_comm _ (UInt32.ofNat others),
      UInt32.add_assoc, UInt32.add_comm _ numSent]

/-- Two packets are queued, and the first write fails: the second one stays. -/
theorem empties_queue_fails : ¬ ∀ (transportError : Bool) (numPosted numSent : UInt32) (others : Nat)
    (packets : List ComPacket) (answers : List IoResult),
    numPosted - numSent = UInt32.ofNat (packets.length + others) →
    (sendAll transportError numSent packets answers).status = .returned true →
    EmptiesQueue transportError numPosted numSent others packets answers := by
  intro always
  obtain ⟨empty, -⟩ := always false 2 0 0 [⟨2, []⟩, ⟨2, []⟩] [.error, .error] (by decide) (by decide)
  revert empty
  decide

/-- A failure in the last packet does no harm. -/
theorem empties_queue_iff_late :
    EmptiesQueue false 2 0 0 [⟨2, []⟩, ⟨2, []⟩] [.count 4, .count 4, .error, .error] ↔
      Drains false [⟨2, []⟩, ⟨2, []⟩] [.count 4, .count 4, .error, .error] :=
  empties_queue_iff false 2 0 0 [⟨2, []⟩, ⟨2, []⟩] [.count 4, .count 4, .error, .error] (by decide) (by decide)

end PacketComms.PacketMuxer
