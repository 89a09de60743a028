import PacketComms.Demuxer.Effect

namespace PacketComms.PacketDemuxer

/-- A call of `readBytes` whose data has arrived, read in one piece. -/
def readActions (size : Nat) : List DemuxerAction :=
  (if size = 0 then [.receive] else [.receive, .read (.count size), .receive]) ++ [.receive]

/-- A call of `receivePacket` whose frame has arrived. -/
def frameActions (p : ComPacket) : List DemuxerAction :=
  .ready true :: (readActions 4 ++ (readActions 4 ++ readActions p.data.length))

/-- The same up to the end of the loop of `readBytes`. -/
def fillActions (size : Nat) : List DemuxerAction :=
  if size = 0 then [.receive] else [.receive, .read (.count size), .receive]

theorem readActions_eq (size : Nat) : readActions size = fillActions size ++ [.receive] := rfl

/-- A call of `receivePacket` up to the end of the header, -/
def sizeActions : List DemuxerAction := .ready true :: (readActions 4 ++ fillActions 4)

/-- and up to the end of the payload. -/
def payloadActions (p : ComPacket) : List DemuxerAction := sizeActions ++ .receive :: fillActions p.data.length

theorem frameActions_eq (p : ComPacket) : frameActions p = payloadActions p ++ [.receive] := by
  simp [frameActions, payloadActions, sizeActions, readActions_eq]

theorem step_ready (ids : IdManager) {d : PacketDemuxer} {caller : Caller} (at_pc : d.receive = .ready caller) :
    (system ids).step d (.ready true) =
      some { d with waits := d.waits ++ [true], receive := .test caller .type [] 4 } := by
  show step ids d (.ready true) = _
  unfold step
  rw [at_pc]
  rfl

section Receive

variable {d : PacketDemuxer} {caller : Caller} {field : Field} {buffer : List Byte} {size : Nat}

theorem step_test (ids : IdManager) (at_pc : d.receive = .test caller field buffer size)
    (flag : d.transportError = false) :
    (system ids).step d .receive = some { d with
      receive := if 0 < size then .read caller field buffer size else .check caller field buffer size } := by
  have tested : (system ids).step d .receive = d.receiveStep := by
    show step ids d .receive = _
    unfold step
    rw [at_pc]
  rw [tested, receiveStep, at_pc]
  by_cases positive : 0 < size
  · exact (if_pos ⟨positive, flag⟩).trans (by rw [if_pos positive])
  · exact (if_neg fun both => positive both.1).trans (by rw [if_neg positive])

/-- All that is asked for is read at once. -/
theorem step_read (ids : IdManager) {bytes more : List Byte}
    (at_pc : d.receive = .read caller field buffer bytes.length) (input : d.input = bytes ++ more)
    (some_bytes : bytes.length ≠ 0) :
    (system ids).step d (.read (.count bytes.length)) = some { d with
      input := more
      receive := .test caller field (buffer ++ bytes) 0 } := by
  have enough : bytes.length ≤ bytes.length ∧ bytes.length ≤ d.input.length := by simp [input]
  show step ids d (.read (.count bytes.length)) = _
  unfold step
  rw [at_pc]
  refine (if_pos enough).trans ((if_neg fun both => some_bytes both.1).trans ?_)
  rw [input, List.drop_left, List.take_left, Nat.sub_self]

theorem step_check (ids : IdManager) (at_pc : d.receive = .check caller field buffer size)
    (flag : d.transportError = false) :
    (system ids).step d .receive = some (d.fieldRead caller buffer field) := by
  have tested : (system ids).step d .receive = d.receiveStep := by
    show step ids d .receive = _
    unfold step
    rw [at_pc]
  rw [tested, receiveStep, at_pc]
  exact if_neg (by simp [flag])

end Receive

theorem fill_run (ids : IdManager) {d : PacketDemuxer} {caller : Caller} {field : Field}
    {bytes more : List Byte} {size : Nat} (at_pc : d.receive = .test caller field [] size)
    (length : bytes.length = size) (flag : d.transportError = false) (input : d.input = bytes ++ more) :
    (system ids).run d (fillActions size) =
      some { d with input := more, receive := .check caller field bytes 0 } := by
  subst length
  unfold fillActions
  by_cases empty : bytes.length = 0
  · cases List.eq_nil_of_length_eq_zero empty
    have all : d.input = more := input
    rw [if_pos empty, TransitionSystem.run, step_test ids at_pc flag, ← all]
    rfl
  · have asked := step_test ids at_pc flag
    rw [if_pos (Nat.pos_of_ne_zero empty)] at asked
    let reading : PacketDemuxer := { d with receive := .read caller field [] bytes.length }
    let filled : PacketDemuxer := { d with input := more, receive := .test caller field bytes 0 }
    have read : (system ids).step reading (.read (.count bytes.length)) = some filled :=
        step_read ids (d := reading) rfl input empty
    have done : (system ids).step filled .receive = some { filled with receive := .check caller field bytes 0 } :=
      step_test ids (d := filled) rfl flag
    rw [if_neg empty, TransitionSystem.run, asked]
    show (system ids).run reading [.read (.count bytes.length), .receive] = _
    rw [TransitionSystem.run, read]
    show (system ids).run filled [.receive] = _
    rw [TransitionSystem.run, done]
    rfl

theorem readBytes_run (ids : IdManager) {d : PacketDemuxer} {caller : Caller} {field : Field}
    {bytes more : List Byte} {size : Nat} (at_pc : d.receive = .test caller field [] size)
    (length : bytes.length = size) (flag : d.transportError = false) (input : d.input = bytes ++ more) :
    (system ids).run d (readActions size) =
      some ({ d with input := more, receive := .check caller field bytes 0 }.fieldRead caller bytes field) := by
  let filled : PacketDemuxer := { d with input := more, receive := .check caller field bytes 0 }
  have checked : (system ids).step filled .receive = some (filled.fieldRead caller bytes field) :=
    step_check ids (d := filled) rfl flag
  refine TransitionSystem.run_trans (fill_run ids at_pc length flag input) ?_
  rw [TransitionSystem.run, checked]
  rfl

/-- A header that has arrived is read, -/
theorem size_run (ids : IdManager) {d : PacketDemuxer} {caller : Caller} {type size more : List Byte}
    (at_pc : d.receive = .ready caller) (flag : d.transportError = false) (input : d.input = type ++ (size ++ more))
    (four : type.length = 4) (four' : size.length = 4) :
    (system ids).run d sizeActions = some { d with
      waits := d.waits ++ [true]
      input := more
      receive := .check caller (.size type) size 0 } := by
  let first : PacketDemuxer := { d with waits := d.waits ++ [true], receive := .test caller .type [] 4 }
  let second : PacketDemuxer := { first with
    input := size ++ more, receive := .test caller (.size type) [] 4 }
  have begun : (system ids).step d (.ready true) = some first := step_ready ids at_pc
  have typed : (system ids).run first (readActions 4) = some second :=
    readBytes_run ids (d := first) rfl four flag input
  have sized := fill_run ids (d := second) rfl four' flag rfl
  unfold sizeActions
  rw [TransitionSystem.run, begun]
  exact TransitionSystem.run_trans typed sized

/-- and then the payload, if its size is not too large for the vector. -/
theorem payload_run (ids : IdManager) {d : PacketDemuxer} {caller : Caller} {p : ComPacket} {more : List Byte}
    (at_pc : d.receive = .ready caller) (flag : d.transportError = false) (input : d.input = p.frame ++ more)
    (small : p.data.length < 2 ^ 31) :
    (system ids).run d (payloadActions p) = some { d with
      waits := d.waits ++ [true]
      input := more
      receive := .check caller (.payload p.type) p.data 0 } := by
  have size : p.sizeField.toNat = p.data.length := ComPacket.sizeField_toNat (by omega)
  have made : ComPacket.ofSize p.type p.sizeField = some ⟨p.type, List.replicate p.data.length 0⟩ := by
    rw [ComPacket.ofSize_eq, size, if_pos small]
  rw [ComPacket.frame_eq, List.append_assoc, List.append_assoc] at input
  let header : PacketDemuxer := { d with
    waits := d.waits ++ [true]
    input := p.data ++ more
    receive := .check caller (.size (htonl p.type)) (htonl p.sizeField) 0 }
  have sized : (system ids).step header .receive =
      some { header with receive := .test caller (.payload p.type) [] p.data.length } := by
    rw [step_check ids (d := header) rfl flag]
    simp only [fieldRead, ntohl_htonl, made, List.length_replicate]
  refine TransitionSystem.run_trans (size_run ids at_pc flag input rfl rfl) ?_
  rw [TransitionSystem.run, sized]
  exact fill_run ids (d := { header with receive := .test caller (.payload p.type) [] p.data.length }) rfl rfl flag rfl

/-- A frame that has arrived can be received. -/
theorem receivePacket_run (ids : IdManager) {d : PacketDemuxer} {caller : Caller} {p : ComPacket}
    {more : List Byte} (at_pc : d.receive = .ready caller) (flag : d.transportError = false)
    (input : d.input = p.frame ++ more) (valid : p.type ≠ IdManager.invalidPacket)
    (small : p.data.length < 2 ^ 31) :
    (system ids).run d (frameActions p) = some { d with
      waits := d.waits ++ [true]
      input := more
      received := d.received ++ [p]
      receive :=
        match caller with
        | .receiveHelloMessage => .greet p
        | .receiveLoop => .dispatch p } := by
  let filled : PacketDemuxer := { d with
    waits := d.waits ++ [true]
    input := more
    receive := .check caller (.payload p.type) p.data 0 }
  have checked : (system ids).step filled .receive = some (filled.fieldRead caller p.data (.payload p.type)) :=
    step_check ids (d := filled) rfl flag
  rw [frameActions_eq]
  refine TransitionSystem.run_trans (payload_run ids at_pc flag input small) ?_
  rw [TransitionSystem.run, checked]
  simp only [fieldRead, if_neg valid]
  rfl

/-- A step of the receive thread to which the transport says neither no nor error. -/
def Receiving (action : DemuxerAction) : Prop :=
  action = .receive ∨ action = .ready true ∨ ∃ n, action = .read (.count n)

theorem fillActions_receiving (size : Nat) : ∀ action ∈ fillActions size, Receiving action := by
  intro action member
  unfold fillActions at member
  split at member <;> simp at member
  · exact Or.inl member
  · rcases member with rfl | rfl | rfl
    · exact Or.inl rfl
    · exact Or.inr (Or.inr ⟨size, rfl⟩)
    · exact Or.inl rfl

theorem readActions_receiving (size : Nat) : ∀ action ∈ readActions size, Receiving action := by
  intro action member
  rcases List.mem_append.mp member with fills | last
  · exact fillActions_receiving size action fills
  · exact Or.inl (List.mem_singleton.mp last)

theorem sizeActions_receiving : ∀ action ∈ sizeActions, Receiving action := by
  intro action member
  simp only [sizeActions, List.mem_cons, List.mem_append] at member
  rcases member with rfl | type | size
  · exact Or.inr (Or.inl rfl)
  · exact readActions_receiving 4 action type
  · exact fillActions_receiving 4 action size

theorem payloadActions_receiving (p : ComPacket) : ∀ action ∈ payloadActions p, Receiving action := by
  intro action member
  simp only [payloadActions, List.mem_append, List.mem_cons] at member
  rcases member with header | rfl | payload
  · exact sizeActions_receiving action header
  · exact Or.inl rfl
  · exact fillActions_receiving _ action payload

theorem frameActions_receiving (p : ComPacket) : ∀ action ∈ frameActions p, Receiving action := by
  rw [frameActions_eq]
  intro action member
  rcases List.mem_append.mp member with early | last
  · exact payloadActions_receiving p action early
  · exact Or.inl (List.mem_singleton.mp last)

end PacketComms.PacketDemuxer
