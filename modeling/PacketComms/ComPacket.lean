import PacketComms.IdManager
import PacketComms.Lib.PrefixCode

namespace PacketComms

/-- `ComPacket`. The defaults are those of the default constructor. -/
structure ComPacket where
  type : PacketType := IdManager.invalidPacket
  data : List Byte := []
  deriving DecidableEq

/-- The argument lists of the constructors that take a type. The vector of the
second one is moved from. -/
inductive PacketArgs
  | copied (buffer : List Byte) (size : Int)
  | moved (buffer : List Byte)
  | sized (size : Int)

namespace ComPacket

/-- The constructors. `none`: a negative `int` reaches the vector as a length above
`max_size()`, and the vector throws `std::length_error`. -/
def make (type : PacketType) : PacketArgs → Option ComPacket
  | .copied buffer size => if size < 0 then none else some ⟨type, buffer.take size.toNat⟩
  | .moved buffer => some ⟨type, buffer⟩
  | .sized size => if size < 0 then none else some ⟨type, List.replicate size.toNat 0⟩

/-- The constructor that `receivePacket` calls with a `uint32_t` from the wire, which
the overload takes as an `int`. -/
def ofSize (type : PacketType) (size : UInt32) : Option ComPacket :=
  make type (.sized size.toInt32.toInt)

theorem ofSize_eq (type : PacketType) (size : UInt32) :
    ofSize type size =
      if size.toNat < 2 ^ 31 then some ⟨type, List.replicate size.toNat 0⟩ else none := by
  have bound := size.toNat_lt
  have value : size.toInt32.toInt = if size.toNat < 2 ^ 31 then (size.toNat : Int) else size.toNat - 2 ^ 32 := by
    change size.toBitVec.toInt = _
    rw [BitVec.toInt_eq_toNat_cond]
    simp only [UInt32.toNat_toBitVec]
    split <;> split <;> omega
  simp only [ofSize, make, value]
  split <;> rename_i small
  · rw [if_neg (by omega), Int.toNat_natCast]
  · rw [if_pos (by omega)]

@[simp] theorem make_type {type : PacketType} {args : PacketArgs} {p : ComPacket}
    (run : make type args = some p) : p.type = type := by
  cases args <;> simp only [make] at run <;> try split at run
  all_goals first | (cases Option.some.inj run; rfl) | simp at run

/-- The value that `sendPacket` passes to `htonl` as the size: `std::size_t` narrowed to 32 bits. -/
def sizeField (p : ComPacket) : UInt32 := UInt32.ofNat p.data.length

/-- The three buffers that `sendPacket` writes, in order. -/
def fields (p : ComPacket) : List (List Byte) := [htonl p.type, htonl p.sizeField, p.data]

/-- The bytes of a packet on the wire. -/
def frame (p : ComPacket) : List Byte := p.fields.flatten

theorem frame_eq (p : ComPacket) : p.frame = htonl p.type ++ (htonl p.sizeField ++ p.data) := by
  simp only [frame, fields, List.flatten_cons, List.flatten_nil, List.append_nil]

@[simp] theorem frame_length (p : ComPacket) : p.frame.length = 8 + p.data.length := by
  rw [frame_eq]
  simp only [List.length_append, htonl_length]
  omega

theorem sizeField_toNat {p : ComPacket} (small : p.data.length < 2 ^ 32) :
    p.sizeField.toNat = p.data.length := by
  simp only [sizeField, UInt32.toNat_ofNat', Nat.mod_eq_of_lt small]

/-- A frame tells its own end as long as the size field has not wrapped. -/
theorem frame_delimited {p q : ComPacket} {x y : List Byte} (hp : p.data.length < 2 ^ 32)
    (hq : q.data.length < 2 ^ 32) (same : p.frame ++ x = q.frame ++ y) : p = q := by
  simp only [frame_eq, List.append_assoc] at same
  obtain ⟨types, same⟩ := List.append_inj same rfl
  obtain ⟨sizes, same⟩ := List.append_inj same rfl
  have lengths : p.data.length = q.data.length := by
    rw [← sizeField_toNat hp, ← sizeField_toNat hq, htonl_injective sizes]
  obtain ⟨data, -⟩ := List.append_inj same lengths
  cases p
  cases q
  simp only [mk.injEq]
  exact ⟨htonl_injective types, data⟩

/-- A packet that `receivePacket` can return. -/
def Receivable (p : ComPacket) : Prop := p.type ≠ IdManager.invalidPacket ∧ p.data.length < 2 ^ 31

/-- The wire format as a code. -/
def code : PrefixCode ComPacket Byte where
  encode := frame
  domain p := p.data.length < 2 ^ 32
  nonempty p := by
    intro empty
    have length := p.frame_length
    rw [empty, List.length_nil] at length
    omega
  delimited := frame_delimited

end ComPacket

/-- Every frame header of the stream that can be read is one of a packet that can be received. -/
def SoundHeaders (stream : List Byte) : Prop :=
  ∀ packets type size, (∀ p ∈ packets, p.Receivable) →
    ComPacket.code.stream packets ++ (htonl type ++ htonl size) <+: stream →
    type ≠ IdManager.invalidPacket ∧ size.toNat < 2 ^ 31

theorem SoundHeaders.tail {p : ComPacket} {stream : List Byte} (sound : SoundHeaders (p.frame ++ stream))
    (receivable : p.Receivable) : SoundHeaders stream := by
  intro packets type size valid within
  refine sound (p :: packets) type size ?_ ?_
  · intro q member
    rcases List.mem_cons.mp member with rfl | later
    · exact receivable
    · exact valid q later
  · rw [PrefixCode.stream_cons, List.append_assoc]
    exact (List.prefix_append_right_inj _).mpr within

/-- What senders of such packets produce, and any part of it, has sound headers. -/
theorem SoundHeaders.of_frames {frames : List ComPacket} (valid : ∀ p ∈ frames, p.Receivable) {stream : List Byte}
    (sub : stream <+: ComPacket.code.stream frames) : SoundHeaders stream := by
  have small {packets : List ComPacket} (valid : ∀ p ∈ packets, p.Receivable) :
      ∀ p ∈ packets, ComPacket.code.domain p := by
    intro p member
    have bound := (valid p member).2
    show p.data.length < 2 ^ 32
    omega
  intro packets type size proper within
  obtain ⟨more, rfl⟩ := ComPacket.code.prefix_of_stream_prefix (small proper) (small valid)
    ((List.prefix_append _ _).trans (within.trans sub))
  have next := within.trans sub
  rw [PrefixCode.stream_append, List.prefix_append_right_inj] at next
  obtain ⟨tail, next⟩ := next
  cases more with
  | nil =>
    have lengths := congrArg List.length next
    simp at lengths
  | cons p more =>
    have frame : ComPacket.code.encode p = p.frame := rfl
    simp only [PrefixCode.stream_cons, frame, ComPacket.frame_eq, List.append_assoc] at next
    obtain ⟨types, next⟩ := List.append_inj next rfl
    obtain ⟨sizes, -⟩ := List.append_inj next rfl
    obtain ⟨proper, bound⟩ := valid p (by simp)
    rw [htonl_injective types, htonl_injective sizes, ComPacket.sizeField_toNat (by omega)]
    exact ⟨proper, bound⟩

/-- A `std::shared_ptr<ComPacket>`: the address tells packets of equal content apart. -/
structure SharedPacket where
  addr : Nat
  packet : ComPacket
  deriving DecidableEq

/-- `ControlMessage`. -/
inductive ControlMessage
  | heartBeat
  | hello
  | goodBye

namespace ControlMessage

/-- The underlying value. -/
def value : ControlMessage → Byte
  | heartBeat => 0
  | hello => 254
  | goodBye => 255

/-- The arguments of `emplacePacket` in `sendControlMessage`, after the name. -/
def args (msg : ControlMessage) : PacketArgs := .copied [msg.value] 1

/-- The packet that `sendControlMessage` posts. -/
def packet (msg : ControlMessage) : ComPacket := ⟨IdManager.controlPacket, [msg.value]⟩

theorem make_args (msg : ControlMessage) :
    ComPacket.make IdManager.controlPacket msg.args = some msg.packet := rfl

end ControlMessage

/-- What a call of `read` or `write` returns: a negative number, or a count of bytes. -/
inductive IoResult
  | error
  | count (n : Nat)
  deriving DecidableEq

end PacketComms
