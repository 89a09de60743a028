import PacketComms.Bytes
import Mathlib.Data.List.Induction
import Mathlib.Algebra.GroupWithZero.Nat

namespace PacketComms

/-- `std::streambuf::traits_type::eof()`. -/
def eof : Int := -1

/-- `traits_type::to_int_type`, which reads the character as an octet. -/
def toIntType (c : Byte) : Int := c.toNat

/-- The conversion of an `int_type` to a `char_type`. -/
def toCharType (ch : Int) : Byte := UInt8.ofBitVec (BitVec.ofInt 8 ch)

theorem toIntType_ne_eof (c : Byte) : toIntType c ≠ eof := by
  unfold toIntType eof
  omega

@[simp] theorem toCharType_toIntType (c : Byte) : toCharType (toIntType c) = c := by
  simp [toCharType, toIntType]

/-- `VectorOutputStream`: the member `m_v`. The put area of its base class is never set. -/
structure VectorOutputStream where
  v : List Byte := []

namespace VectorOutputStream

/-- The two constructors and their arguments. -/
inductive Construction
  | default
  | reserve (size : Nat)

/-- `m_v` is empty, or initialised by `m_v(reserve)`. -/
def Construction.make : Construction → VectorOutputStream
  | .default => {}
  | .reserve size => { v := List.replicate size 0 }

def get (s : VectorOutputStream) : List Byte := s.v

def clear (_ : VectorOutputStream) : VectorOutputStream := { v := [] }

def overflow (s : VectorOutputStream) (ch : Int) : Int × VectorOutputStream :=
  if ch = eof then (eof, s) else (ch, { v := s.v ++ [toCharType ch] })

def xsputn (s : VectorOutputStream) (bytes : List Byte) : Nat × VectorOutputStream :=
  (bytes.length, { v := s.v ++ bytes })

/-- `sputc` of the base class. There is never room in the put area. -/
def sputc (s : VectorOutputStream) (c : Byte) : Int × VectorOutputStream := s.overflow (toIntType c)

/-- `sputn` of the base class. -/
def sputn (s : VectorOutputStream) (bytes : List Byte) : Nat × VectorOutputStream := s.xsputn bytes

@[simp] theorem sputc_eq (s : VectorOutputStream) (c : Byte) : s.sputc c = (toIntType c, { v := s.v ++ [c] }) := by
  simp [sputc, overflow, toIntType_ne_eof]

/-- What a program does with an output stream. -/
inductive Write
  | sputc (c : Byte)
  | sputn (bytes : List Byte)
  | clear
  deriving DecidableEq

def Write.bytes : Write → List Byte
  | .sputc c => [c]
  | .sputn bytes => bytes
  | .clear => []

def write (s : VectorOutputStream) : Write → VectorOutputStream
  | .sputc c => (s.sputc c).2
  | .sputn bytes => (s.sputn bytes).2
  | .clear => s.clear

def writeAll (s : VectorOutputStream) (writes : List Write) : VectorOutputStream := writes.foldl write s

/-- The bytes written since the last `clear`. -/
def written (writes : List Write) : List Byte := (writes.reverse.takeWhile (· ≠ .clear)).reverse.flatMap Write.bytes

theorem written_append (writes : List Write) (write : Write) :
    written (writes ++ [write]) = if write = .clear then [] else written writes ++ write.bytes := by
  by_cases cleared : write = .clear <;> simp [written, cleared]

/-- What was in the vector from the beginning stays there until the first `clear`. -/
theorem get_writeAll (s : VectorOutputStream) (writes : List Write) :
    (s.writeAll writes).get = (if .clear ∈ writes then [] else s.get) ++ written writes := by
  induction writes using List.reverseRecOn with
  | nil => simp [writeAll, written]
  | append_singleton writes write ih =>
    rw [writeAll, List.foldl_append, List.foldl_cons, List.foldl_nil, ← writeAll, written_append]
    unfold get at ih ⊢
    cases write with
    | sputc c => simp [VectorOutputStream.write, ih, Write.bytes]
    | sputn bytes => simp [VectorOutputStream.write, sputn, xsputn, ih, Write.bytes]
    | clear => simp [VectorOutputStream.write, clear]

end VectorOutputStream

/-- `VectorInputStream`: the get area that its constructor sets over the vector it is given. -/
structure VectorInputStream where
  buffer : List Byte
  gptr : Nat
  within : gptr ≤ buffer.length

namespace VectorInputStream

def ofBuffer (v : List Byte) : VectorInputStream := ⟨v, 0, Nat.zero_le v.length⟩

/-- `sbumpc` of the base class. At the end of the get area `uflow` and `underflow` report the end of file. -/
def sbumpc (s : VectorInputStream) : Int × VectorInputStream :=
  if more : s.gptr < s.buffer.length then (toIntType s.buffer[s.gptr], ⟨s.buffer, s.gptr + 1, more⟩) else (eof, s)

/-- `xsgetn` of the base class: characters as by `sbumpc`, until there are `n` or the end of file is reported. -/
def xsgetn (s : VectorInputStream) : Nat → List Byte × VectorInputStream
  | 0 => ([], s)
  | n + 1 =>
    if s.sbumpc.1 = eof then ([], s.sbumpc.2)
    else (toCharType s.sbumpc.1 :: (s.sbumpc.2.xsgetn n).1, (s.sbumpc.2.xsgetn n).2)

/-- What a program does with an input stream. -/
inductive Read
  | sbumpc
  | sgetn (n : Nat)

/-- How many bytes a read asks for. -/
def Read.requested : Read → Nat
  | .sbumpc => 1
  | .sgetn n => n

/-- The bytes that a read gives, and whether it reports the end of file: `sbumpc` by its value, `sgetn` by a count less
than it was asked for. -/
def read (s : VectorInputStream) : Read → List Byte × Bool × VectorInputStream
  | .sbumpc => if s.sbumpc.1 = eof then ([], true, s.sbumpc.2) else ([toCharType s.sbumpc.1], false, s.sbumpc.2)
  | .sgetn n => ((s.xsgetn n).1, decide ((s.xsgetn n).1.length < n), (s.xsgetn n).2)

def readAll (s : VectorInputStream) : List Read → List Byte × VectorInputStream
  | [] => ([], s)
  | r :: reads =>
    ((s.read r).1 ++ ((s.read r).2.2.readAll reads).1, ((s.read r).2.2.readAll reads).2)

/-- What is left to read. -/
def left (s : VectorInputStream) : List Byte := s.buffer.drop s.gptr

theorem sbumpc_nil {s : VectorInputStream} (none : s.left = []) : s.sbumpc = (eof, s) := by
  have last : ¬ s.gptr < s.buffer.length := by
    have short : s.left.length = 0 := by rw [none]; rfl
    rw [left, List.length_drop] at short
    omega
  rw [sbumpc, dif_neg last]

theorem sbumpc_cons {s : VectorInputStream} {c : Byte} {bytes : List Byte} (first : s.left = c :: bytes) :
    ∃ s' : VectorInputStream, s.sbumpc = (toIntType c, s') ∧ s'.buffer = s.buffer ∧ s'.left = bytes := by
  have more : s.gptr < s.buffer.length := by
    have long : s.left.length = bytes.length + 1 := by rw [first]; rfl
    rw [left, List.length_drop] at long
    omega
  have split : s.buffer[s.gptr] :: s.buffer.drop (s.gptr + 1) = c :: bytes := by
    rw [← List.drop_eq_getElem_cons more]
    exact first
  obtain ⟨head, tail⟩ := List.cons.inj split
  exact ⟨⟨s.buffer, s.gptr + 1, more⟩, by rw [sbumpc, dif_pos more, head], rfl, tail⟩

/-- A block read takes what it is asked for, or all that is left. -/
theorem xsgetn_eq (s : VectorInputStream) (n : Nat) :
    (s.xsgetn n).1 = s.left.take n ∧ (s.xsgetn n).2.left = s.left.drop n ∧ (s.xsgetn n).2.buffer = s.buffer := by
  induction n generalizing s with
  | zero => simp [xsgetn]
  | succ n ih =>
    cases rest : s.left with
    | nil => simp [xsgetn, sbumpc_nil rest, rest]
    | cons c bytes =>
      obtain ⟨s', bumped, buffer, tail⟩ := sbumpc_cons rest
      obtain ⟨block, after, same⟩ := ih s'
      rw [tail] at block after
      simp only [xsgetn, bumped, toIntType_ne_eof, if_false, toCharType_toIntType, block, List.take_succ_cons,
        List.drop_succ_cons, after, same, buffer, and_self]

theorem read_eq (s : VectorInputStream) (r : Read) :
    (s.read r).1 = s.left.take r.requested ∧ ((s.read r).2.1 = true ↔ s.left.length < r.requested) ∧
      (s.read r).2.2.left = s.left.drop r.requested ∧ (s.read r).2.2.buffer = s.buffer := by
  cases r with
  | sgetn n =>
    obtain ⟨block, after, same⟩ := xsgetn_eq s n
    refine ⟨block, ?_, after, same⟩
    simp only [read, block, decide_eq_true_eq, List.length_take, Read.requested]
    omega
  | sbumpc =>
    cases rest : s.left with
    | nil => simp [read, sbumpc_nil rest, rest, Read.requested]
    | cons c bytes =>
      obtain ⟨s', bumped, buffer, tail⟩ := sbumpc_cons rest
      simp [read, bumped, toIntType_ne_eof, Read.requested, buffer, tail]

theorem readAll_eq (s : VectorInputStream) (reads : List Read) :
    (s.readAll reads).1 = s.left.take (reads.map Read.requested).sum ∧
      (s.readAll reads).2.left = s.left.drop (reads.map Read.requested).sum ∧
      (s.readAll reads).2.buffer = s.buffer := by
  induction reads generalizing s with
  | nil => simp [readAll]
  | cons r reads ih =>
    obtain ⟨bytes, -, after, same⟩ := read_eq s r
    obtain ⟨more, after', same'⟩ := ih (s.read r).2.2
    rw [after] at more after'
    rw [same] at same'
    refine ⟨?_, ?_, same'⟩
    · rw [readAll, bytes, more, List.map_cons, List.sum_cons, List.take_add]
    · rw [readAll, after', List.drop_drop, List.map_cons, List.sum_cons]

/-- Over this buffer, whichever reads are made: they give these bytes in order, the end of file is reported by a read
that asks for more than are left and by no other, and the buffer stays as it is. -/
def Returns (buffer bytes : List Byte) : Prop :=
  ∀ (reads : List Read) (r : Read),
    ((ofBuffer buffer).readAll reads).1 = bytes.take (reads.map Read.requested).sum ∧
    ((((ofBuffer buffer).readAll reads).2.read r).2.1 = true ↔
      bytes.length - (reads.map Read.requested).sum < r.requested) ∧
    (((ofBuffer buffer).readAll reads).2.read r).2.2.buffer = buffer

theorem returns_buffer (buffer : List Byte) : Returns buffer buffer := by
  intro reads r
  obtain ⟨bytes, after, same⟩ := readAll_eq (ofBuffer buffer) reads
  obtain ⟨-, ended, -, same'⟩ := read_eq ((ofBuffer buffer).readAll reads).2 r
  refine ⟨bytes, ?_, by rw [same', same]; rfl⟩
  rw [ended, after, List.length_drop]
  rfl

end VectorInputStream

/-- The stream holds the bytes written since the last `clear`, and an input stream over it returns them. -/
def CarriesWritten (construction : VectorOutputStream.Construction) (writes : List VectorOutputStream.Write) : Prop :=
  (construction.make.writeAll writes).get = VectorOutputStream.written writes ∧
  VectorInputStream.Returns (construction.make.writeAll writes).get (VectorOutputStream.written writes)

/-- A stream built with a `reserve` argument begins with that many bytes which nobody wrote. -/
theorem carries_written_iff (construction : VectorOutputStream.Construction) (writes : List VectorOutputStream.Write) :
    CarriesWritten construction writes ↔
      construction = .default ∨ construction = .reserve 0 ∨ .clear ∈ writes := by
  have begins : construction.make.get = [] ↔ construction = .default ∨ construction = .reserve 0 := by
    cases construction with
    | default => simp [VectorOutputStream.Construction.make, VectorOutputStream.get]
    | reserve n => simp [VectorOutputStream.Construction.make, VectorOutputStream.get]
  have held := VectorOutputStream.get_writeAll construction.make writes
  have same : (construction.make.writeAll writes).get = VectorOutputStream.written writes ↔
      .clear ∈ writes ∨ construction.make.get = [] := by
    rw [held, List.append_left_eq_self]
    by_cases cleared : .clear ∈ writes <;> simp [cleared]
  rw [CarriesWritten, ← or_assoc, ← begins, or_comm, ← same]
  constructor
  · exact And.left
  · intro equal
    refine ⟨equal, ?_⟩
    rw [equal]
    exact VectorInputStream.returns_buffer _

theorem carries_written_fails : ¬ CarriesWritten (.reserve 4) [.sputc 65] := by
  rintro ⟨same, -⟩
  revert same
  decide

end PacketComms
