import PacketComms.Muxer.SendPacket
import Mathlib.Data.List.Infix

namespace PacketComms

theorem drop_take_length {α : Type*} (l : List α) (n k : Nat) :
    (l.drop n).drop k = l.drop ((l.take n).length + k) := by
  rw [List.drop_drop, List.length_take]
  by_cases bound : n ≤ l.length
  · rw [Nat.min_eq_left bound]
  · rw [List.drop_eq_nil_of_le (by omega), List.drop_eq_nil_of_le (by omega)]

namespace PacketMuxer

/-- The call goes on where it stopped when more answers come, and does not look at
answers that come after its return. -/
theorem writeBytes_append (e : Bool) (buffer : List Byte) (answers more : List IoResult) :
    writeBytes e buffer (answers ++ more) =
      if (writeBytes e buffer answers).status = .running then
        let w := writeBytes e (buffer.drop (writeBytes e buffer answers).accepted.length) more
        { w with accepted := (writeBytes e buffer answers).accepted ++ w.accepted }
      else
        { writeBytes e buffer answers with rest := (writeBytes e buffer answers).rest ++ more } := by
  induction answers generalizing buffer with
  | nil => cases buffer <;> simp [writeBytes]
  | cons answer answers ih =>
    cases buffer with
    | nil => simp [writeBytes]
    | cons byte buffer =>
      cases answer with
      | error => simp [writeBytes]
      | count n =>
        cases e with
        | true => simp [writeBytes]
        | false =>
          simp only [List.cons_append, writeBytes, Bool.false_eq_true, if_false, ih]
          split
          · simp only [List.append_assoc, List.length_append, drop_take_length]
          · rfl

/-- The three ways a call of `writeBytes` can stand when the flag is not set:
everything is written, a write failed inside the buffer, or answers are missing.
`used` are the answers before the return or before the failure. -/
inductive WriteCase (buffer : List Byte) (answers : List IoResult) (w : Written) : Prop
  | done {used} : answers = used ++ w.rest → .error ∉ used → w.status = .returned true →
      w.accepted = buffer → writeBytes false buffer used = ⟨buffer, 0, .returned true, []⟩ →
      WriteCase buffer answers w
  | failed {used} : answers = used ++ .error :: w.rest → .error ∉ used → w.status = .returned false →
      w.accepted <+: buffer → w.accepted ≠ buffer → (writeBytes false buffer used).status = .running →
      (writeBytes false buffer used).accepted = w.accepted → WriteCase buffer answers w
  | running : .error ∉ answers → w.status = .running → w.rest = [] →
      w.accepted <+: buffer → w.accepted ≠ buffer → WriteCase buffer answers w

theorem writeBytes_cases (buffer : List Byte) (answers : List IoResult) :
    WriteCase buffer answers (writeBytes false buffer answers) := by
  induction answers generalizing buffer with
  | nil =>
    cases buffer with
    | nil => exact .done rfl List.not_mem_nil rfl rfl rfl
    | cons byte buffer => exact .running List.not_mem_nil rfl rfl List.nil_prefix nofun
  | cons answer answers ih =>
    cases buffer with
    | nil => exact .done rfl List.not_mem_nil rfl rfl rfl
    | cons byte buffer =>
      cases answer with
      | error => exact .failed rfl List.not_mem_nil rfl List.nil_prefix nofun rfl rfl
      | count n =>
        simp only [writeBytes, Bool.false_eq_true, if_false]
        have split := List.take_append_drop n (byte :: buffer)
        have short {taken : List Byte} (part : taken ≠ (byte :: buffer).drop n) :
            (byte :: buffer).take n ++ taken ≠ byte :: buffer :=
          fun all => part (List.append_cancel_left (all.trans split.symm))
        have sub {taken : List Byte} (part : taken <+: (byte :: buffer).drop n) :
            (byte :: buffer).take n ++ taken <+: byte :: buffer := by
          simpa only [split] using (List.prefix_append_right_inj ((byte :: buffer).take n)).mpr part
        cases ih ((byte :: buffer).drop n) with
        | @done used answered clean status accepted alone =>
          refine .done (by rw [List.cons_append, ← answered]) ?_ status ?_ ?_
          · simpa using clean
          · simp only [accepted, split]
          · simp only [writeBytes, Bool.false_eq_true, if_false, alone, split]
        | @failed used answered clean status accepted part alone same =>
          refine .failed (by rw [List.cons_append, ← answered]) ?_ status
            (sub accepted) (short part) ?_ ?_
          · simpa using clean
          · simpa only [writeBytes, Bool.false_eq_true, if_false] using alone
          · simp only [writeBytes, Bool.false_eq_true, if_false, same]
        | running clean status rest accepted part =>
          exact .running (by simpa using clean) status rest (sub accepted) (short part)

/-- A failure ends a call that is waiting for an answer. -/
theorem writeBytes_error {buffer : List Byte} {used : List IoResult}
    (running : (writeBytes false buffer used).status = .running) (more : List IoResult) :
    writeBytes false buffer (used ++ .error :: more) =
      { writeBytes false buffer used with status := .returned false, rest := more } := by
  induction used generalizing buffer with
  | nil => cases buffer <;> simp_all [writeBytes]
  | cons answer used ih =>
    cases buffer with
    | nil => simp [writeBytes] at running
    | cons byte buffer =>
      cases answer with
      | error => simp [writeBytes] at running
      | count n =>
        simp only [writeBytes, Bool.false_eq_true, if_false] at running
        simp only [List.cons_append, writeBytes, Bool.false_eq_true, if_false, ih running]

/-- More answers never take back what the transport accepted. -/
theorem writeFields_accepted_mono (fields : List (List Byte)) (answers more : List IoResult) :
    (writeFields false fields answers).accepted <+: (writeFields false fields (answers ++ more)).accepted := by
  induction fields generalizing answers with
  | nil => exact List.nil_prefix
  | cons buffer fields ih =>
    simp only [writeFields, Written.andThen, writeBytes_append]
    cases writeBytes_cases buffer answers with
    | done _ _ status _ _ =>
      simp only [status, reduceCtorEq, if_false]
      exact (List.prefix_append_right_inj _).mpr (ih _)
    | failed _ _ status _ _ _ _ =>
      simp only [status, reduceCtorEq, if_false]
      exact (List.prefix_append_right_inj _).mpr (ih _)
    | running _ status _ _ _ =>
      simp only [status, if_true]
      split <;> simp only [List.append_assoc] <;> exact List.prefix_append _ _

end PacketMuxer

end PacketComms
