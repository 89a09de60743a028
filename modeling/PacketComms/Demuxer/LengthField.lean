import PacketComms.Demuxer.Machine

namespace PacketComms

/-- The length of the vector that the receiver makes for a packet that has been sent, after all the
conversions on the way. `none`: the vector throws. -/
def ComPacket.lengthReceived (p : ComPacket) : Option Nat :=
  (ofSize (ntohl (htonl p.type)) (ntohl (htonl p.sizeField))).map (·.data.length)

theorem ComPacket.ofSize_length (type : PacketType) (size : UInt32) :
    (ofSize type size).map (·.data.length) = if size.toNat < 2 ^ 31 then some size.toNat else none := by
  rw [ofSize_eq]
  split <;> simp

/-- Below 2 ^ 31 nothing happens to the length; at 2 ^ 31 it turns negative, at 2 ^ 32 it loses its upper bits. -/
theorem ComPacket.lengthReceived_iff (p : ComPacket) :
    p.lengthReceived = some p.data.length ↔ p.data.length < 2 ^ 31 := by
  have value : p.sizeField.toNat = p.data.length % 2 ^ 32 := by simp only [sizeField, UInt32.toNat_ofNat']
  simp only [lengthReceived, ntohl_htonl, ofSize_length, value]
  constructor
  · intro same
    split at same
    · have whole : p.data.length % 2 ^ 32 = p.data.length := Option.some.inj same
      omega
    · cases same
  · intro small
    have whole : p.data.length % 2 ^ 32 = p.data.length := Nat.mod_eq_of_lt (by omega)
    rw [whole, if_pos small]

namespace PacketDemuxer

theorem fieldRead_size (d : PacketDemuxer) (caller : Caller) (type size : List Byte) :
    (d.fieldRead caller size (.size type)).receive =
      if (ntohl size).toNat < 2 ^ 31 then .test caller (.payload (ntohl type)) [] (ntohl size).toNat else .aborted := by
  simp only [fieldRead, ComPacket.ofSize_eq]
  split
  · rename_i none
    split at none
    · cases none
    · rename_i large
      rw [if_neg large]
  · rename_i p made
    split at made
    · rename_i small
      cases Option.some.inj made
      rw [if_pos small, List.length_replicate]
    · cases made

/-- Payload lengths arrive as they were sent, and size fields are taken for what they say, exactly below 2 ^ 31;
from there on the receive thread ends in the constructor of the packet. -/
theorem length_field_iff (type : PacketType) (buffer : List Byte) (d : PacketDemuxer) (caller : Caller)
    (typeField sizeField : List Byte) :
    ((ComPacket.make type (.moved buffer)).bind ComPacket.lengthReceived = some buffer.length ↔
      buffer.length < 2 ^ 31) ∧
    ((ComPacket.ofSize (ntohl typeField) (ntohl sizeField)).map (·.data.length) = some (ntohl sizeField).toNat ↔
      (ntohl sizeField).toNat < 2 ^ 31) ∧
    ((d.fieldRead caller sizeField (.size typeField)).receive =
        .test caller (.payload (ntohl typeField)) [] (ntohl sizeField).toNat ↔ (ntohl sizeField).toNat < 2 ^ 31) ∧
    ((d.fieldRead caller sizeField (.size typeField)).receive = .aborted ↔ ¬ (ntohl sizeField).toNat < 2 ^ 31) := by
  refine ⟨ComPacket.lengthReceived_iff ⟨type, buffer⟩, ?_, ?_, ?_⟩
  · rw [ComPacket.ofSize_length]
    split <;> simp_all
  · rw [fieldRead_size]
    split <;> simp_all
  · rw [fieldRead_size]
    split <;> simp_all

/-- A payload of 2 GiB, and the header of one from a peer that has not sent anything else. -/
theorem length_field_fails :
    (¬ ∀ (type : PacketType) (buffer : List Byte),
      (ComPacket.make type (.moved buffer)).bind ComPacket.lengthReceived = some buffer.length) ∧
    ¬ ∀ (type : PacketType) (sizeField : List Byte), sizeField.length = 4 →
      (ComPacket.ofSize type (ntohl sizeField)).map (·.data.length) = some (ntohl sizeField).toNat := by
  constructor
  · intro all
    obtain ⟨buffer, length⟩ : ∃ buffer : List Byte, buffer.length = 2 ^ 31 :=
      ⟨List.replicate (2 ^ 31) 7, List.length_replicate ..⟩
    have small : buffer.length < 2 ^ 31 := (ComPacket.lengthReceived_iff ⟨2, buffer⟩).mp (all 2 buffer)
    omega
  · intro all
    have kept := all 2 [128, 0, 0, 0] rfl
    rw [ComPacket.ofSize_length] at kept
    exact absurd kept (by decide)

end PacketDemuxer

end PacketComms
