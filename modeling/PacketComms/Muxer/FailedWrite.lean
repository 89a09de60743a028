import PacketComms.Muxer.WriteBytes

namespace PacketComms.PacketMuxer

/-- The answers give no byte to the next `k` buffers (none of them empty): zeros, then
a failure, for each of them, as far as the answers go. -/
def Refused : Nat → List IoResult → Prop
  | 0, _ => True
  | _ + 1, [] => True
  | k + 1, .error :: answers => Refused k answers
  | k + 1, .count 0 :: answers => Refused (k + 1) answers
  | _ + 1, .count (_ + 1) :: _ => False

/-- The buffers of a frame that `writeBytes` passes to the transport: the length of
each, and how many follow it in the same frame. Empty buffers are not passed. -/
def plan : List (List Byte) → List (Nat × Nat)
  | [] => []
  | buffer :: fields =>
    if buffer = [] then plan fields else (buffer.length, fields.countP (· ≠ [])) :: plan fields

/-- A failure, if one comes, finds the transport refusing what is left of that frame.
The first argument lists the buffers still to be written, of which the first may be partly done. -/
def SafeAnswers : List (Nat × Nat) → List IoResult → Prop
  | [], _ => True
  | _ :: _, [] => True
  | (_, later) :: _, .error :: answers => Refused later answers
  | (size, later) :: rest, .count n :: answers =>
    if n < size then SafeAnswers ((size - n, later) :: rest) answers else SafeAnswers rest answers

/-- `sendAll` stops at the assertion of `sendPacket` when it meets an invalid packet. -/
def framePlan (packets : List ComPacket) : List (Nat × Nat) :=
  (packets.takeWhile (·.type ≠ IdManager.invalidPacket)).flatMap (fun p => plan p.fields)

theorem safeAnswers_writeBytes {buffer : List Byte} (nonempty : buffer ≠ []) (later : Nat)
    (rest : List (Nat × Nat)) (answers : List IoResult) :
    SafeAnswers ((buffer.length, later) :: rest) answers ↔
      match (writeBytes false buffer answers).status with
      | .returned true => SafeAnswers rest (writeBytes false buffer answers).rest
      | .returned false => Refused later (writeBytes false buffer answers).rest
      | _ => True := by
  induction answers generalizing buffer with
  | nil =>
    cases buffer with
    | nil => exact absurd rfl nonempty
    | cons byte buffer => simp [SafeAnswers, writeBytes]
  | cons answer answers ih =>
    cases buffer with
    | nil => exact absurd rfl nonempty
    | cons byte buffer =>
      cases answer with
      | error => simp [SafeAnswers, writeBytes]
      | count n =>
        simp only [SafeAnswers, writeBytes, Bool.false_eq_true, if_false]
        split
        · rename_i below
          have left : (byte :: buffer).drop n ≠ [] := by
            intro all
            have length := congrArg List.length all
            rw [List.length_drop, List.length_nil] at length
            omega
          rw [← List.length_drop]
          exact ih left
        · rename_i above
          rw [List.drop_eq_nil_of_le (by omega)]
          cases answers <;> simp [writeBytes]

theorem refused_writeBytes {buffer : List Byte} (nonempty : buffer ≠ []) (k : Nat)
    (answers : List IoResult) :
    Refused (k + 1) answers ↔ (writeBytes false buffer answers).accepted = [] ∧
      ((writeBytes false buffer answers).status = .returned false →
        Refused k (writeBytes false buffer answers).rest) := by
  obtain ⟨byte, buffer, rfl⟩ := List.exists_cons_of_ne_nil nonempty
  induction answers with
  | nil => simp [Refused, writeBytes]
  | cons answer answers ih =>
    cases answer with
    | error => simp [Refused, writeBytes]
    | count n =>
      cases n with
      | zero => simpa [Refused, writeBytes] using ih
      | succ n => simp [Refused, writeBytes]

/-- What the transport takes of the buffers after a failure. -/
theorem refused_writeFields (fields : List (List Byte)) (answers : List IoResult) :
    Refused (fields.countP (· ≠ [])) answers ↔ (writeFields false fields answers).accepted = [] := by
  induction fields generalizing answers with
  | nil => simp [Refused, writeFields]
  | cons buffer fields ih =>
    cases buffer with
    | nil => simpa [writeFields, writeBytes, Written.andThen] using ih answers
    | cons byte buffer =>
      rw [List.countP_cons_of_pos (by simp), refused_writeBytes (List.cons_ne_nil byte buffer)]
      simp only [writeFields, Written.andThen]
      cases writeBytes_cases (byte :: buffer) answers with
      | done _ _ status accepted _ => simp [status, accepted]
      | failed _ _ status _ _ _ _ =>
        simp only [status, ih, List.append_eq_nil_iff, forall_const]
      | running _ status _ _ _ => simp [status]

/-- What the transport takes from the middle of a frame on: the rest of the frame,
then the packets behind it. -/
def sendRest (n : UInt32) (fields : List (List Byte)) (packets : List ComPacket)
    (answers : List IoResult) : List Byte :=
  let w := writeFields false fields answers
  match w.status with
  | .returned ok => w.accepted ++ (sendAll (!ok) n packets w.rest).accepted
  | _ => w.accepted

theorem sendAll_stopped (n : UInt32) (packets : List ComPacket) (answers : List IoResult) :
    (sendAll true n packets answers).accepted = [] := by
  cases packets <;> simp [sendAll]

theorem sendAll_eq_sendRest (n : UInt32) {packet : ComPacket} (packets : List ComPacket)
    (answers : List IoResult) (sendable : packet.type ≠ IdManager.invalidPacket) :
    (sendAll false n (packet :: packets) answers).accepted =
      sendRest (n + 1) packet.fields packets answers := by
  simp only [sendAll, sendRest, sendPacket, sendable, Bool.false_eq_true, if_false]
  cases (writeFields false packet.fields answers).status <;> rfl

theorem sendRest_nil (n : UInt32) (packets : List ComPacket) (answers : List IoResult) :
    sendRest n [] packets answers = (sendAll false n packets answers).accepted := by
  simp [sendRest, writeFields]

theorem sendRest_done {buffer : List Byte} {answers : List IoResult} (n : UInt32)
    (fields : List (List Byte)) (packets : List ComPacket)
    (status : (writeBytes false buffer answers).status = .returned true) :
    sendRest n (buffer :: fields) packets answers = (writeBytes false buffer answers).accepted ++
      sendRest n fields packets (writeBytes false buffer answers).rest := by
  simp only [sendRest, writeFields, Written.andThen, status]
  cases (writeFields false fields (writeBytes false buffer answers).rest).status <;> simp

theorem sendRest_failed {buffer : List Byte} {answers : List IoResult} (n : UInt32)
    (fields : List (List Byte)) (packets : List ComPacket)
    (status : (writeBytes false buffer answers).status = .returned false) :
    sendRest n (buffer :: fields) packets answers = (writeBytes false buffer answers).accepted ++
      (writeFields false fields (writeBytes false buffer answers).rest).accepted := by
  simp only [sendRest, writeFields, Written.andThen, status]
  cases (writeFields false fields (writeBytes false buffer answers).rest).status <;>
    simp [sendAll_stopped]

theorem sendRest_running {buffer : List Byte} {answers : List IoResult} (n : UInt32)
    (fields : List (List Byte)) (packets : List ComPacket)
    (status : (writeBytes false buffer answers).status = .running) :
    sendRest n (buffer :: fields) packets answers = (writeBytes false buffer answers).accepted := by
  simp only [sendRest, writeFields, Written.andThen, status]

/-- Nothing is accepted after an answer of the transport that reports a failure. -/
def SilentAfterFailure (accepted : List IoResult → List Byte) (answers : List IoResult) : Prop :=
  ∀ before after, answers = before ++ .error :: after → accepted answers = accepted before

theorem silent_shift {used rest : List IoResult} {accepted accepted' : List IoResult → List Byte}
    {sent : List Byte} (clean : .error ∉ used)
    (shift : ∀ answers, accepted (used ++ answers) = sent ++ accepted' answers) :
    SilentAfterFailure accepted (used ++ rest) ↔ SilentAfterFailure accepted' rest := by
  constructor
  · intro silent before after split
    have whole := silent (used ++ before) after (by rw [split, List.append_assoc])
    rw [shift, shift] at whole
    exact List.append_cancel_left whole
  · intro silent before after split
    rcases List.append_eq_append_iff.mp split with ⟨middle, rfl, rest⟩ | ⟨middle, rfl, rest⟩
    · rw [shift, shift, silent middle after rest]
    · cases middle with
      | nil =>
        have tail := silent [] after (by simpa using rest.symm)
        rw [shift, tail]
        simpa using (shift []).symm
      | cons answer middle =>
        simp only [List.cons_append, List.cons.injEq] at rest
        exact absurd (by simp [rest.1]) clean

theorem silent_clean {accepted : List IoResult → List Byte} {answers : List IoResult}
    (clean : .error ∉ answers) : SilentAfterFailure accepted answers := by
  intro before after split
  exact absurd (by simp [split]) clean

/-- Around the first failure: silence is that nothing is accepted behind it. -/
theorem silent_failed_iff {used rest : List IoResult} {accepted late : List IoResult → List Byte}
    {sent : List Byte} (clean : .error ∉ used) (atFailure : accepted used = sent)
    (behind : ∀ more, accepted (used ++ .error :: more) = sent ++ late more)
    (mono : ∀ before after, late before <+: late (before ++ after)) :
    SilentAfterFailure accepted (used ++ .error :: rest) ↔ late rest = [] := by
  constructor
  · intro silent
    have same := silent used rest rfl
    rw [behind, atFailure] at same
    exact List.append_right_eq_self.mp same
  · intro quiet before after split
    have part {before after : List IoResult} (whole : before ++ after = rest) : late before = [] := by
      have sub := mono before after
      rw [whole, quiet] at sub
      exact List.prefix_nil.mp sub
    rcases List.append_eq_append_iff.mp split with ⟨middle, rfl, tail⟩ | ⟨middle, rfl, tail⟩
    · cases middle with
      | nil => rw [behind, quiet, List.append_nil, List.append_nil, atFailure]
      | cons answer middle =>
        simp only [List.cons_append, List.cons.injEq] at tail
        obtain ⟨rfl, tail⟩ := tail
        rw [behind, behind, quiet, part tail.symm]
    · cases middle with
      | nil =>
        simp only [List.nil_append, List.cons.injEq, true_and] at tail
        subst tail
        rw [behind, quiet, List.append_nil, ← atFailure, List.append_nil]
      | cons answer middle =>
        simp only [List.cons_append, List.cons.injEq] at tail
        exact absurd (by simp [tail.1]) clean

/-- One frame, given the packets behind it. -/
theorem sendRest_silent_iff {packets : List ComPacket}
    (behind : ∀ n answers, SilentAfterFailure (fun as => (sendAll false n packets as).accepted) answers ↔
      SafeAnswers (framePlan packets) answers) (fields : List (List Byte)) (n : UInt32)
    (answers : List IoResult) :
    SilentAfterFailure (sendRest n fields packets) answers ↔
      SafeAnswers (plan fields ++ framePlan packets) answers := by
  induction fields generalizing answers with
  | nil =>
    simp only [funext (sendRest_nil n packets), plan, List.nil_append]
    exact behind n answers
  | cons buffer fields ih =>
    by_cases empty : buffer = []
    · subst empty
      have skip : sendRest n ([] :: fields) packets = sendRest n fields packets := by
        funext as
        rw [sendRest_done n fields packets (by simp [writeBytes])]
        simp [writeBytes]
      simp only [skip, plan, if_true]
      exact ih answers
    · simp only [plan, empty, if_false, List.cons_append]
      rw [safeAnswers_writeBytes empty]
      cases writeBytes_cases buffer answers with
      | @done used answered clean status accepted alone =>
        have shift (as : List IoResult) : sendRest n (buffer :: fields) packets (used ++ as) =
            buffer ++ sendRest n fields packets as := by
          have whole := writeBytes_append false buffer used as
          simp only [alone, reduceCtorEq, if_false, List.nil_append] at whole
          rw [sendRest_done n fields packets (by rw [whole]), whole]
        simp only [status]
        rw [← ih]
        conv_lhs => rw [answered]
        exact silent_shift clean shift
      | @failed used answered clean status accepted part alone same =>
        have whole := writeBytes_error alone
        simp only [status]
        rw [refused_writeFields]
        conv_lhs => rw [answered]
        refine silent_failed_iff clean ((sendRest_running n fields packets alone).trans same) ?_
          (fun before after => writeFields_accepted_mono fields before after)
        intro more
        rw [sendRest_failed n fields packets (by rw [whole]), whole, same]
      | running clean status rest accepted part =>
        simp only [status, iff_true]
        exact silent_clean clean

theorem framePlan_cons {packet : ComPacket} (packets : List ComPacket)
    (sendable : packet.type ≠ IdManager.invalidPacket) :
    framePlan (packet :: packets) = plan packet.fields ++ framePlan packets := by
  simp [framePlan, sendable]

theorem sendAll_invalid (n : UInt32) {packet : ComPacket} (packets : List ComPacket)
    (answers : List IoResult) (invalid : packet.type = IdManager.invalidPacket) :
    (sendAll false n (packet :: packets) answers).accepted = [] := by
  simp [sendAll, sendPacket, invalid]

theorem sendAll_silent_iff (n : UInt32) (packets : List ComPacket) (answers : List IoResult) :
    SilentAfterFailure (fun as => (sendAll false n packets as).accepted) answers ↔
      SafeAnswers (framePlan packets) answers := by
  induction packets generalizing n answers with
  | nil => simp [SilentAfterFailure, sendAll, framePlan, SafeAnswers]
  | cons packet packets ih =>
    by_cases invalid : packet.type = IdManager.invalidPacket
    · simp only [sendAll_invalid n packets _ invalid]
      simp [SilentAfterFailure, framePlan, invalid, SafeAnswers]
    · simp only [sendAll_eq_sendRest n packets _ invalid, framePlan_cons packets invalid]
      exact sendRest_silent_iff (fun n answers => ih n answers) packet.fields (n + 1) answers

theorem sendRest_prefix {packets : List ComPacket} {behind : List Byte}
    (stream : ∀ n answers, SafeAnswers (framePlan packets) answers →
      (sendAll false n packets answers).accepted <+: behind)
    (fields : List (List Byte)) (n : UInt32) {answers : List IoResult}
    (safe : SafeAnswers (plan fields ++ framePlan packets) answers) :
    sendRest n fields packets answers <+: fields.flatten ++ behind := by
  induction fields generalizing answers with
  | nil =>
    rw [sendRest_nil]
    exact stream n answers safe
  | cons buffer fields ih =>
    simp only [List.flatten_cons, List.append_assoc]
    by_cases empty : buffer = []
    · subst empty
      rw [sendRest_done n fields packets (by simp [writeBytes])]
      simp only [plan, if_true] at safe
      simpa [writeBytes] using ih safe
    · simp only [plan, empty, if_false, List.cons_append] at safe
      rw [safeAnswers_writeBytes empty] at safe
      cases writeBytes_cases buffer answers with
      | done _ _ status accepted _ =>
        rw [status] at safe
        rw [sendRest_done n fields packets status, accepted]
        exact (List.prefix_append_right_inj buffer).mpr (ih safe)
      | failed _ _ status accepted _ _ _ =>
        rw [status] at safe
        rw [sendRest_failed n fields packets status, (refused_writeFields _ _).mp safe, List.append_nil]
        exact accepted.trans (List.prefix_append _ _)
      | running _ status _ accepted _ =>
        rw [sendRest_running n fields packets status]
        exact accepted.trans (List.prefix_append _ _)

theorem sendAll_prefix (n : UInt32) (packets : List ComPacket) (answers : List IoResult)
    (safe : SafeAnswers (framePlan packets) answers) :
    (sendAll false n packets answers).accepted <+: ComPacket.code.stream packets := by
  induction packets generalizing n answers with
  | nil => exact List.nil_prefix
  | cons packet packets ih =>
    by_cases invalid : packet.type = IdManager.invalidPacket
    · rw [sendAll_invalid n packets answers invalid]
      exact List.nil_prefix
    · rw [sendAll_eq_sendRest n packets answers invalid]
      rw [framePlan_cons packets invalid] at safe
      exact sendRest_prefix ih packet.fields (n + 1) safe

theorem Refused.of_append {k : Nat} {before after : List IoResult}
    (refused : Refused k (before ++ after)) : Refused k before := by
  induction before generalizing k with
  | nil => cases k <;> trivial
  | cons answer before ih =>
    cases k with
    | zero => trivial
    | succ k =>
      cases answer with
      | error => exact ih refused
      | count n =>
        cases n with
        | zero => exact ih refused
        | succ n => exact refused

theorem SafeAnswers.of_append {frames : List (Nat × Nat)} {before after : List IoResult}
    (safe : SafeAnswers frames (before ++ after)) : SafeAnswers frames before := by
  induction before generalizing frames with
  | nil => cases frames <;> trivial
  | cons answer before ih =>
    cases frames with
    | nil => trivial
    | cons field frames =>
      cases answer with
      | error => exact Refused.of_append safe
      | count n =>
        simp only [List.cons_append, SafeAnswers] at safe ⊢
        split at safe <;> rename_i size
        · rw [if_pos size]; exact ih safe
        · rw [if_neg size]; exact ih safe

/-- The stream is never corrupted: at every moment the transport has accepted a
prefix of the frames, and nothing after it reported a failure. -/
def StreamIntact (n : UInt32) (packets : List ComPacket) (answers : List IoResult) : Prop :=
  (∀ before, before <+: answers →
    (sendAll false n packets before).accepted <+: ComPacket.code.stream packets) ∧
  SilentAfterFailure (fun as => (sendAll false n packets as).accepted) answers

/-- Exactly the failures inside the payload are harmless by themselves: one that
comes in the type or in the size must find the transport closed for the rest of
the frame, since `sendPacket` makes its remaining calls all the same. -/
theorem streamIntact_iff (n : UInt32) (packets : List ComPacket) (answers : List IoResult) :
    StreamIntact n packets answers ↔ SafeAnswers (framePlan packets) answers := by
  constructor
  · intro intact
    exact (sendAll_silent_iff n packets answers).mp intact.2
  · intro safe
    refine ⟨?_, (sendAll_silent_iff n packets answers).mpr safe⟩
    rintro before ⟨after, rfl⟩
    exact sendAll_prefix n packets before safe.of_append

/-- The type is refused with an error, the size is accepted: the peer reads the
size field as a type. -/
theorem streamIntact_fails : ¬ StreamIntact 0 [⟨2, [7]⟩] [.error, .count 4] := by
  intro intact
  have sub := intact.1 _ List.prefix_rfl
  revert sub
  decide

end PacketComms.PacketMuxer
