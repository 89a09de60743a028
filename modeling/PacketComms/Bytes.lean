import Mathlib.Algebra.Group.Nat.Defs
import Mathlib.Tactic.Common

namespace PacketComms

/-- `VectorStream::CharType`, read as the octet that travels. -/
abbrev Byte := UInt8

/-- The four bytes of memory behind a `uint32_t` that holds `htonl(x)`. -/
def htonl (x : UInt32) : List Byte :=
  [UInt8.ofNat (x.toNat / 2 ^ 24), UInt8.ofNat (x.toNat / 2 ^ 16),
    UInt8.ofNat (x.toNat / 2 ^ 8), UInt8.ofNat x.toNat]

/-- `ntohl` of a `uint32_t` whose memory is `bytes`. Both call sites pass four bytes. -/
def ntohl (bytes : List Byte) : UInt32 :=
  UInt32.ofNat (bytes.foldl (fun value byte => value * 2 ^ 8 + byte.toNat) 0)

@[simp] theorem htonl_length (x : UInt32) : (htonl x).length = 4 := rfl

@[simp] theorem ntohl_htonl (x : UInt32) : ntohl (htonl x) = x := by
  have bound := x.toNat_lt
  apply UInt32.toNat_inj.mp
  simp only [ntohl, htonl, List.foldl_cons, List.foldl_nil, UInt8.toNat_ofNat', UInt32.toNat_ofNat']
  omega

theorem htonl_injective {x y : UInt32} (same : htonl x = htonl y) : x = y := by
  rw [← ntohl_htonl x, ← ntohl_htonl y, same]

/-- Four bytes read as a header field are the ones that `htonl` would have sent. -/
theorem htonl_ntohl {bytes : List Byte} (four : bytes.length = 4) : htonl (ntohl bytes) = bytes := by
  obtain ⟨a, b, c, d, rfl⟩ : ∃ a b c d, bytes = [a, b, c, d] := by
    match bytes, four with
    | [a, b, c, d], _ => exact ⟨a, b, c, d, rfl⟩
  have ha := a.toNat_lt
  have hb := b.toNat_lt
  have hc := c.toNat_lt
  have hd := d.toNat_lt
  simp only [ntohl, htonl, List.foldl_cons, List.foldl_nil, UInt32.toNat_ofNat', List.cons.injEq,
    and_true, ← UInt8.toNat_inj, UInt8.toNat_ofNat']
  omega

end PacketComms
