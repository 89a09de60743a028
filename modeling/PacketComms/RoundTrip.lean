import PacketComms.Muxer.SendPacket
import PacketComms.Demuxer.ReceivePacket
import Mathlib.Data.List.Count

namespace PacketComms

/-- The answers of a transport that moves up to `sizes[k]` bytes at its k-th call. -/
def answersOf (sizes : List Nat) : List IoResult := sizes.map .count

/-- How many of the calls move something, if there is something to move. -/
def positives (sizes : List Nat) : Nat := sizes.countP (0 < ·)

@[simp] theorem positives_cons_zero (sizes : List Nat) : positives (0 :: sizes) = positives sizes := rfl

@[simp] theorem positives_cons_succ (n : Nat) (sizes : List Nat) :
    positives ((n + 1) :: sizes) = positives sizes + 1 := by
  simp [positives]

/-- Finitely many zeros in a row. -/
def Fair (sizes : Nat → Nat) : Prop := ∀ i, ∃ j, i ≤ j ∧ 0 < sizes j

/-- The first `n` answers of an endless sequence. -/
def firstAnswers (sizes : Nat → Nat) (n : Nat) : List Nat := (List.range n).map sizes

theorem positives_mono (sizes : Nat → Nat) {m n : Nat} (le : m ≤ n) :
    positives (firstAnswers sizes m) ≤ positives (firstAnswers sizes n) := by
  obtain ⟨k, rfl⟩ := Nat.exists_eq_add_of_le le
  simp only [firstAnswers, List.range_add, List.map_append, positives, List.countP_append]
  omega

theorem Fair.positives_unbounded {sizes : Nat → Nat} (fair : Fair sizes) (k : Nat) :
    ∃ n, ∀ m, n ≤ m → k ≤ positives (firstAnswers sizes m) := by
  induction k with
  | zero => exact ⟨0, fun _ _ => Nat.zero_le _⟩
  | succ k ih =>
    obtain ⟨n, enough⟩ := ih
    obtain ⟨j, after, positive⟩ := fair n
    refine ⟨j + 1, fun m le => ?_⟩
    have old := enough j after
    have new : positives (firstAnswers sizes (j + 1)) = positives (firstAnswers sizes j) + 1 := by
      simp [firstAnswers, List.range_succ, positives, positive]
    have grown := positives_mono sizes le
    omega

namespace PacketMuxer

/-- A buffer is written completely as soon as as many calls have moved something as it
has bytes; at most that many of the answers that count are used up. -/
theorem writeBytes_enough {buffer : List Byte} {sizes : List Nat}
    (enough : buffer.length ≤ positives sizes) :
    ∃ left, writeBytes false buffer (answersOf sizes) = ⟨buffer, 0, .returned true, answersOf left⟩ ∧
      positives sizes ≤ positives left + buffer.length := by
  induction sizes generalizing buffer with
  | nil =>
    cases buffer with
    | nil => exact ⟨[], rfl, le_rfl⟩
    | cons byte buffer => simp [positives] at enough
  | cons n sizes ih =>
    cases buffer with
    | nil => exact ⟨n :: sizes, rfl, le_rfl⟩
    | cons byte buffer =>
      have used : positives (n :: sizes) ≤ positives sizes + min n 1 := by
        cases n <;> simp
      have moved : ((byte :: buffer).drop n).length = (byte :: buffer).length - n := List.length_drop
      have nonempty : (byte :: buffer).length = buffer.length + 1 := rfl
      obtain ⟨left, run, bound⟩ := ih (show ((byte :: buffer).drop n).length ≤ positives sizes by omega)
      refine ⟨left, ?_, by omega⟩
      change writeBytes false (byte :: buffer) (.count n :: answersOf sizes) = _
      simp only [writeBytes, Bool.false_eq_true, if_false, run, List.take_append_drop]

theorem writeFields_enough {fields : List (List Byte)} {sizes : List Nat}
    (enough : fields.flatten.length ≤ positives sizes) :
    ∃ left, writeFields false fields (answersOf sizes) =
        ⟨fields.flatten, 0, .returned true, answersOf left⟩ ∧
      positives sizes ≤ positives left + fields.flatten.length := by
  induction fields generalizing sizes with
  | nil => exact ⟨sizes, rfl, by simp⟩
  | cons buffer fields ih =>
    simp only [List.flatten_cons, List.length_append] at enough ⊢
    obtain ⟨middle, first, bound⟩ := writeBytes_enough (show buffer.length ≤ positives sizes by omega)
    obtain ⟨left, rest, bound'⟩ := ih (show _ ≤ positives middle by omega)
    exact ⟨left, by simp only [writeFields, Written.andThen, first, rest, Bool.and_self], by omega⟩

theorem sendAll_enough (n : UInt32) {packets : List ComPacket} {sizes : List Nat}
    (sendable : ∀ p ∈ packets, p.type ≠ IdManager.invalidPacket)
    (enough : (ComPacket.code.stream packets).length ≤ positives sizes) :
    ∃ left, sendAll false n packets (answersOf sizes) =
        ⟨ComPacket.code.stream packets, [], false, n + UInt32.ofNat packets.length, .returned true,
          answersOf left⟩ ∧
      positives sizes ≤ positives left + (ComPacket.code.stream packets).length := by
  induction packets generalizing n sizes with
  | nil => exact ⟨sizes, by simp [sendAll], by simp⟩
  | cons p packets ih =>
    simp only [PrefixCode.stream_cons, List.length_append] at enough
    have frame : ComPacket.code.encode p = p.fields.flatten := rfl
    rw [frame] at enough
    obtain ⟨middle, first, bound⟩ := writeFields_enough (show p.fields.flatten.length ≤ positives sizes by omega)
    obtain ⟨left, rest, bound'⟩ := ih (n + 1) (fun q member => sendable q (List.mem_cons_of_mem _ member))
      (show _ ≤ positives middle by omega)
    have valid := sendable p List.mem_cons_self
    have count : n + 1 + UInt32.ofNat packets.length = n + UInt32.ofNat (p :: packets).length := by
      rw [List.length_cons, UInt32.ofNat_add, UInt32.add_assoc, UInt32.add_comm 1]
      rfl
    refine ⟨left, ?_, ?_⟩
    · simp only [sendAll, sendPacket, valid, Bool.false_eq_true, if_false, first, Bool.not_true, rest, count,
        PrefixCode.stream_cons, frame]
    · rw [PrefixCode.stream_cons, List.length_append, frame]
      omega

end PacketMuxer

namespace PacketDemuxer

theorem readBytes_enough (data more buffer : List Byte) {sizes : List Nat}
    (enough : data.length ≤ positives sizes) :
    ∃ left, readBytes false false data.length (data ++ more) buffer (answersOf sizes) =
        ⟨buffer ++ data, 0, more, false, .returned true, answersOf left⟩ ∧
      positives sizes ≤ positives left + data.length := by
  induction sizes generalizing data buffer with
  | nil =>
    cases data with
    | nil => exact ⟨[], by simp [answersOf, readBytes], le_rfl⟩
    | cons byte data => simp [positives] at enough
  | cons n sizes ih =>
    cases data with
    | nil => exact ⟨n :: sizes, by simp [answersOf, readBytes], le_rfl⟩
    | cons byte data =>
      have used : positives (n :: sizes) ≤ positives sizes + min n 1 := by
        cases n <;> simp
      have got : ((byte :: data) ++ more).take (min n (byte :: data).length) = (byte :: data).take n := by
        rw [List.take_append_of_le_length (by omega), ← List.take_eq_take_min]
      have tail : ((byte :: data) ++ more).drop ((byte :: data).take n).length = (byte :: data).drop n ++ more := by
        rw [List.drop_append_of_le_length (by rw [List.length_take]; exact Nat.min_le_right _ _)]
        simp
      have size : (byte :: data).length - ((byte :: data).take n).length = ((byte :: data).drop n).length := by
        simp only [List.length_take, List.length_drop]
        omega
      have nonempty : (byte :: data).length = data.length + 1 := rfl
      have moved : ((byte :: data).drop n).length = (byte :: data).length - n := List.length_drop
      obtain ⟨left, run, bound⟩ := ih ((byte :: data).drop n) (buffer ++ (byte :: data).take n) (by omega)
      refine ⟨left, ?_, by omega⟩
      change readBytes false false _ _ buffer (.count n :: answersOf sizes) = _
      have positive : (byte :: data).length > 0 ∧ false = false := ⟨by omega, rfl⟩
      simp only [readBytes, positive, and_self, if_true, got, Bool.false_eq_true, and_false, if_false,
        tail, size, run, List.append_assoc, List.take_append_drop]

theorem receivePacket_enough {p : ComPacket} (valid : p.type ≠ IdManager.invalidPacket)
    (small : p.data.length < 2 ^ 31) (more : List Byte) (packet : ComPacket) {sizes : List Nat}
    (enough : p.frame.length ≤ positives sizes) :
    ∃ left, receivePacket true false (p.frame ++ more) packet (answersOf sizes) =
        ⟨p, more, false, .returned true, answersOf left⟩ ∧
      positives sizes ≤ positives left + p.frame.length := by
  rw [ComPacket.frame_length] at enough ⊢
  obtain ⟨afterType, typeRead, typeBound⟩ :=
    readBytes_enough (htonl p.type) (htonl p.sizeField ++ p.data ++ more) [] (show _ ≤ positives sizes by simp; omega)
  obtain ⟨afterSize, sizeRead, sizeBound⟩ :=
    readBytes_enough (htonl p.sizeField) (p.data ++ more) [] (show _ ≤ positives afterType by simp at *; omega)
  obtain ⟨left, dataRead, dataBound⟩ :=
    readBytes_enough p.data more [] (show _ ≤ positives afterSize by simp at *; omega)
  have size : p.sizeField.toNat = p.data.length := ComPacket.sizeField_toNat (by omega)
  have make : ComPacket.ofSize p.type p.sizeField = some ⟨p.type, List.replicate p.data.length 0⟩ := by
    rw [ComPacket.ofSize_eq, size, if_pos small]
  simp only [htonl_length, List.nil_append, List.append_assoc] at typeRead sizeRead dataRead typeBound sizeBound
  refine ⟨left, ?_, by omega⟩
  simp only [receivePacket, ComPacket.frame_eq, List.append_assoc, typeRead, sizeRead, dataRead, ntohl_htonl,
    make, transportErrorOnZeroBytes, List.length_replicate, valid, Bool.true_eq_false, if_false]

theorem receivePackets_enough {packets : List ComPacket}
    (valid : ∀ p ∈ packets, p.type ≠ IdManager.invalidPacket ∧ p.data.length < 2 ^ 31)
    (packet : ComPacket) {sizes : List Nat}
    (enough : (ComPacket.code.stream packets).length ≤ positives sizes) :
    ∃ last, receivePackets packets.length
        ⟨packet, ComPacket.code.stream packets, false, .returned true, answersOf sizes⟩ = (packets, last) ∧
      last.status = .returned true ∧ last.input = [] ∧ last.transportError = false := by
  induction packets generalizing packet sizes with
  | nil => exact ⟨_, rfl, rfl, rfl, rfl⟩
  | cons p packets ih =>
    simp only [PrefixCode.stream_cons, List.length_append] at enough
    obtain ⟨hp, small⟩ := valid p List.mem_cons_self
    obtain ⟨left, first, bound⟩ := receivePacket_enough hp small (ComPacket.code.stream packets) packet
      (Nat.le_trans (Nat.le_add_right _ _) enough)
    have frame : ComPacket.code.encode p = p.frame := rfl
    rw [frame] at enough
    obtain ⟨last, rest, facts⟩ := ih (fun q member => valid q (List.mem_cons_of_mem _ member)) p
      (show _ ≤ positives left by omega)
    exact ⟨last, by simp only [List.length_cons, receivePackets, PrefixCode.stream_cons, frame, first, rest, if_true],
      facts⟩

end PacketDemuxer

/-- The two halves against each other, over two unrelated ways of cutting the stream:
from some call of the transport on, everything is sent, and from some call on, the
receiver has the same packets, no byte is left and neither side has seen an error. -/
theorem framing_round_trip (packets : List ComPacket)
    (valid : ∀ p ∈ packets, p.type ≠ IdManager.invalidPacket ∧ p.data.length < 2 ^ 31)
    (writes reads : Nat → Nat) (fairWrites : Fair writes) (fairReads : Fair reads) :
    ∃ wire, (∃ n, ∀ m, n ≤ m →
        let sent := PacketMuxer.sendAll false 0 packets (answersOf (firstAnswers writes m))
        sent.status = .returned true ∧ sent.accepted = wire ∧ sent.packets = [] ∧ sent.transportError = false) ∧
      ∃ n, ∀ m, n ≤ m → ∃ last,
        PacketDemuxer.receivePackets packets.length
          ⟨{}, wire, false, .returned true, answersOf (firstAnswers reads m)⟩ = (packets, last) ∧
        last.status = .returned true ∧ last.input = [] ∧ last.transportError = false := by
  refine ⟨ComPacket.code.stream packets, ?_, ?_⟩
  · obtain ⟨n, enough⟩ := fairWrites.positives_unbounded (ComPacket.code.stream packets).length
    refine ⟨n, fun m le => ?_⟩
    obtain ⟨left, run, -⟩ := PacketMuxer.sendAll_enough 0 (fun p member => (valid p member).1) (enough m le)
    simp only [run, and_self]
  · obtain ⟨n, enough⟩ := fairReads.positives_unbounded (ComPacket.code.stream packets).length
    exact ⟨n, fun m le => PacketDemuxer.receivePackets_enough valid {} (enough m le)⟩

/-- Two packets, one of them empty, written one byte at a time with refusals between
and read in twos. -/
theorem framing_round_trip_two : ∃ wire, (∃ n, ∀ m, n ≤ m →
      let sent := PacketMuxer.sendAll false 0 [⟨2, [7]⟩, ⟨3, []⟩] (answersOf (firstAnswers (· % 2) m))
      sent.status = .returned true ∧ sent.accepted = wire ∧ sent.packets = [] ∧ sent.transportError = false) ∧
    ∃ n, ∀ m, n ≤ m → ∃ last,
      PacketDemuxer.receivePackets 2 ⟨{}, wire, false, .returned true, answersOf (firstAnswers (fun _ => 2) m)⟩ =
        ([⟨2, [7]⟩, ⟨3, []⟩], last) ∧
      last.status = .returned true ∧ last.input = [] ∧ last.transportError = false :=
  framing_round_trip [⟨2, [7]⟩, ⟨3, []⟩] (by decide) (· % 2) (fun _ => 2)
    (fun i => ⟨2 * i + 1, by omega, by simp⟩) (fun i => ⟨i, le_rfl, Nat.zero_lt_two⟩)

end PacketComms
