import PacketComms.Bytes
import Mathlib.Logic.Function.Basic
import Mathlib.Data.List.Nodup

namespace PacketComms

/-- `IdManager::PacketType`. -/
abbrev PacketType := UInt32

/-- `m_map` and `m_reverse`. -/
structure IdManager where
  map : String → Option PacketType
  reverse : List String

namespace IdManager

def invalidPacket : PacketType := 0
def controlPacket : PacketType := 1
def invalidString : String := "__INVALID__"
def controlString : String := "__CONTROL__"

/-- The maps before the loop of the constructor. -/
def reserved : IdManager where
  map := Function.update (Function.update (fun _ => none) invalidString (some invalidPacket))
    controlString (some controlPacket)
  reverse := [invalidString, controlString]

/-- One turn of the constructor's loop, with the counter already advanced. The
assignment to the map narrows `std::size_t` to `PacketType`. `none`: the assertion fails. -/
def insert (m : IdManager) (id : Nat) (name : String) : Option IdManager :=
  if (m.map name).isSome then none
  else some
    { map := Function.update m.map name (some (UInt32.ofNat id))
      reverse := m.reverse ++ [name] }

def insertAll (m : IdManager) (id : Nat) : List String → Option IdManager
  | [] => some m
  | name :: list => (m.insert (id + 1) name).bind (fun m => m.insertAll (id + 1) list)

/-- The constructor. `none`: one of its assertions fails. -/
def ofList (list : List String) : Option IdManager :=
  reserved.insertAll controlPacket.toNat list

/-- `m_map.at(name)`. `none`: it throws `std::out_of_range`. -/
def toId (m : IdManager) (name : String) : Option PacketType := m.map name

/-- `m_reverse[id]`. `none`: the index is out of range. -/
def toString (m : IdManager) (id : PacketType) : Option String := m.reverse[id.toNat]?

/-- What the loop maintains between the map, the reverse vector and the counter. -/
structure Aligned (m : IdManager) : Prop where
  nodup : m.reverse.Nodup
  map_eq : ∀ name, m.map name =
    if name ∈ m.reverse then some (UInt32.ofNat (m.reverse.idxOf name)) else none

theorem reserved_aligned : reserved.Aligned where
  nodup := by decide
  map_eq := by
    intro name
    by_cases control : name = controlString
    · subst control; decide
    · by_cases invalid : name = invalidString
      · subst invalid; decide
      · simp [reserved, control, invalid]

theorem Aligned.insert {m m' : IdManager} {id : Nat} {name : String} (aligned : m.Aligned)
    (counter : id = m.reverse.length) (run : m.insert id name = some m') :
    m'.Aligned ∧ m'.reverse = m.reverse ++ [name] := by
  unfold IdManager.insert at run
  split at run
  · simp at run
  · rename_i fresh
    have out : name ∉ m.reverse := by
      intro member
      rw [aligned.map_eq, if_pos member] at fresh
      simp at fresh
    cases Option.some.inj run
    refine ⟨⟨?_, ?_⟩, rfl⟩
    · rw [List.nodup_append]
      refine ⟨aligned.nodup, List.nodup_singleton _, ?_⟩
      intro old member new single same
      rw [List.mem_singleton] at single
      exact out (single ▸ same ▸ member)
    · intro other
      by_cases same : other = name
      · subst same
        simp only [Function.update_self, List.mem_append, List.mem_singleton, or_true, if_true,
          List.idxOf_append_of_notMem out, List.idxOf_cons_self, Nat.add_zero, counter]
      · simp only [Function.update_of_ne same, aligned.map_eq, List.mem_append, List.mem_singleton, same, or_false]
        split
        · rename_i member
          rw [List.idxOf_append_of_mem member]
        · rfl

theorem Aligned.insertAll {m m' : IdManager} {id : Nat} {list : List String} (aligned : m.Aligned)
    (counter : id + 1 = m.reverse.length) (run : m.insertAll id list = some m') :
    m'.Aligned ∧ m'.reverse = m.reverse ++ list := by
  induction list generalizing m id with
  | nil =>
    cases Option.some.inj run
    exact ⟨aligned, (List.append_nil _).symm⟩
  | cons name list ih =>
    obtain ⟨next, first, rest⟩ := Option.bind_eq_some_iff.mp run
    obtain ⟨aligned', grown⟩ := aligned.insert counter first
    obtain ⟨result, all⟩ := ih aligned' (by rw [grown, List.length_append]; simp; omega) rest
    exact ⟨result, by rw [all, grown, List.append_assoc]; rfl⟩

theorem ofList_aligned {list : List String} {m : IdManager} (run : ofList list = some m) :
    m.Aligned ∧ m.reverse = invalidString :: controlString :: list :=
  reserved_aligned.insertAll rfl run

/-- The list is accepted exactly when its names are distinct and none is reserved. -/
theorem ofList_nodup {list : List String} {m : IdManager} (run : ofList list = some m) :
    (invalidString :: controlString :: list).Nodup := by
  obtain ⟨aligned, all⟩ := ofList_aligned run
  exact all ▸ aligned.nodup

theorem insertAll_exists {m : IdManager} {id : Nat} {list : List String} (aligned : m.Aligned)
    (counter : id + 1 = m.reverse.length) (distinct : (m.reverse ++ list).Nodup) :
    ∃ m', m.insertAll id list = some m' := by
  induction list generalizing m id with
  | nil => exact ⟨m, rfl⟩
  | cons name list ih =>
    have out : name ∉ m.reverse := by
      intro member
      exact (List.nodup_append.mp distinct).2.2 name member name List.mem_cons_self rfl
    have fresh : m.map name = none := by rw [aligned.map_eq, if_neg out]
    obtain ⟨next, first⟩ : ∃ next, m.insert (id + 1) name = some next := ⟨_, by simp [IdManager.insert, fresh]; rfl⟩
    obtain ⟨aligned', grown⟩ := aligned.insert counter first
    obtain ⟨m', rest⟩ := ih aligned' (by rw [grown, List.length_append]; simp; omega)
      (by rw [grown, List.append_assoc]; exact distinct)
    exact ⟨m', by simp [IdManager.insertAll, first, rest]⟩

theorem ofList_exists {list : List String} (distinct : (invalidString :: controlString :: list).Nodup) :
    ∃ m, ofList list = some m :=
  insertAll_exists reserved_aligned rfl distinct

/-- The id of a name is its position, in 32 bits. -/
theorem Aligned.toId_eq_some {m : IdManager} (aligned : m.Aligned) {name : String} {id : PacketType} :
    m.toId name = some id ↔ name ∈ m.reverse ∧ UInt32.ofNat (m.reverse.idxOf name) = id := by
  rw [toId, aligned.map_eq, Option.ite_none_right_eq_some, Option.some.injEq]

/-- The id of the name at position `i`: two more than `i`, in 32 bits. -/
theorem toId_getElem {list : List String} {m : IdManager} (run : ofList list = some m) {i : Nat}
    (bound : i < list.length) : m.toId list[i] = some (UInt32.ofNat (i + 2)) := by
  obtain ⟨aligned, all⟩ := ofList_aligned run
  have inside : i + 2 < m.reverse.length := by rw [all]; simpa using bound
  have entry : m.reverse[i + 2] = list[i] := by simp [all]
  have index := aligned.nodup.idxOf_getElem (i + 2) inside
  rw [entry] at index
  exact aligned.toId_eq_some.mpr ⟨entry ▸ List.getElem_mem inside, by rw [index]⟩

/-- The ids of a list that is not too long are distinct. -/
theorem toId_injective {list : List String} {m : IdManager} (run : ofList list = some m)
    (few : list.length ≤ 2 ^ 32) {a b : String} (ha : a ∈ list) (hb : b ∈ list) (same : m.toId a = m.toId b) :
    a = b := by
  obtain ⟨i, hi, rfl⟩ := List.mem_iff_getElem.mp ha
  obtain ⟨j, hj, rfl⟩ := List.mem_iff_getElem.mp hb
  rw [toId_getElem run hi, toId_getElem run hj, Option.some.injEq, ← UInt32.toNat_inj, UInt32.toNat_ofNat',
    UInt32.toNat_ofNat'] at same
  have index : i = j := by omega
  simp only [index]

theorem toId_controlString {list : List String} {m : IdManager} (run : ofList list = some m) :
    m.toId controlString = some controlPacket := by
  obtain ⟨aligned, all⟩ := ofList_aligned run
  have index : (invalidString :: controlString :: list).idxOf controlString = 1 := by
    rw [List.idxOf_cons_ne _ (by decide : invalidString ≠ controlString), List.idxOf_cons_self]
  exact aligned.toId_eq_some.mpr ⟨by simp [all], by rw [all, index]; rfl⟩

/-- Every id that `toId` issues is in the range of `toString`. -/
theorem toString_isSome {list : List String} {m : IdManager} (run : ofList list = some m)
    {name : String} {id : PacketType} (issued : m.toId name = some id) : (m.toString id).isSome := by
  obtain ⟨aligned, -⟩ := ofList_aligned run
  obtain ⟨member, rfl⟩ := aligned.toId_eq_some.mp issued
  have bound := List.idxOf_lt_length_of_mem member
  have narrow := Nat.mod_le (m.reverse.idxOf name) (2 ^ 32)
  simp only [toString, Option.isSome_iff_exists, List.getElem?_eq_some_iff, UInt32.toNat_ofNat']
  exact ⟨_, by omega, rfl⟩

/-- While the positions fit into an id, `toString` undoes `toId`, -/
theorem Aligned.toString_toId {m : IdManager} (aligned : m.Aligned) (few : m.reverse.length ≤ 2 ^ 32) {name : String}
    {id : PacketType} (issued : m.toId name = some id) : m.toString id = some name := by
  obtain ⟨member, rfl⟩ := aligned.toId_eq_some.mp issued
  have bound := List.idxOf_lt_length_of_mem member
  have wide : (UInt32.ofNat (m.reverse.idxOf name)).toNat = m.reverse.idxOf name := by
    rw [UInt32.toNat_ofNat', Nat.mod_eq_of_lt (by omega)]
  rw [toString, wide]
  exact List.getElem?_idxOf member

/-- and `toId` undoes `toString`. -/
theorem Aligned.toId_toString {m : IdManager} (aligned : m.Aligned) {name : String} {id : PacketType}
    (named : m.toString id = some name) : m.toId name = some id := by
  obtain ⟨bound, entry⟩ := List.getElem?_eq_some_iff.mp named
  have index := aligned.nodup.idxOf_getElem id.toNat bound
  rw [entry] at index
  exact aligned.toId_eq_some.mpr ⟨entry ▸ List.getElem_mem bound, by rw [index, UInt32.ofNat_toNat]⟩

theorem Aligned.toId_isSome {m : IdManager} (aligned : m.Aligned) {name : String} :
    (m.toId name).isSome ↔ name ∈ m.reverse := by
  rw [toId, aligned.map_eq]
  split <;> simp_all

theorem toId_invalidString {list : List String} {m : IdManager} (run : ofList list = some m) :
    m.toId invalidString = some invalidPacket := by
  obtain ⟨aligned, all⟩ := ofList_aligned run
  exact aligned.toId_toString (by rw [toString, all]; rfl)

/-- A longer list gives the names of a shorter one the same ids. -/
theorem toId_append {list more : List String} {m m' : IdManager} (run : ofList list = some m)
    (run' : ofList (list ++ more) = some m') {name : String} (known : name ∈ m.reverse) :
    m'.toId name = m.toId name := by
  obtain ⟨aligned, all⟩ := ofList_aligned run
  obtain ⟨aligned', all'⟩ := ofList_aligned run'
  have longer : m'.reverse = m.reverse ++ more := by rw [all', all]; rfl
  have member : name ∈ m'.reverse := by rw [longer]; exact List.mem_append_left more known
  rw [toId, toId, aligned.map_eq, aligned'.map_eq, if_pos known, if_pos member, longer, List.idxOf_append_of_mem known]

/-- Ids and names are in bijection, and an id says where its name stands in the list. -/
theorem ids_and_names (list : List String) (ids : IdManager) (run : ofList list = some ids)
    (few : list.length < 2 ^ 32 - 2) :
    (∀ name, (ids.toId name).isSome ↔ name = invalidString ∨ name = controlString ∨ name ∈ list) ∧
    (∀ name id, ids.toId name = some id → ids.toString id = some name) ∧
    (∀ id : PacketType, id.toNat < list.length + 2 → ∃ name, ids.toString id = some name ∧ ids.toId name = some id) ∧
    ids.toId invalidString = some invalidPacket ∧ ids.toId controlString = some controlPacket ∧
    (∀ i (bound : i < list.length), ∃ id, ids.toId list[i] = some id ∧ id.toNat = i + 2) ∧
    (∀ more ids', ofList (list ++ more) = some ids' →
      ∀ name, (ids.toId name).isSome → ids'.toId name = ids.toId name) := by
  obtain ⟨aligned, all⟩ := ofList_aligned run
  have length : ids.reverse.length = list.length + 2 := by rw [all]; rfl
  refine ⟨fun name => ?_, fun name id issued => ?_, fun id bound => ?_, toId_invalidString run, toId_controlString run,
    fun i bound => ?_, fun more ids' run' name known => ?_⟩
  · rw [aligned.toId_isSome, all, List.mem_cons, List.mem_cons]
  · exact aligned.toString_toId (by omega) issued
  · have inside : id.toNat < ids.reverse.length := by omega
    have named : ids.toString id = some ids.reverse[id.toNat] := List.getElem?_eq_getElem inside
    exact ⟨_, named, aligned.toId_toString named⟩
  · refine ⟨_, toId_getElem run bound, ?_⟩
    rw [UInt32.toNat_ofNat', Nat.mod_eq_of_lt (by omega)]
  · exact toId_append run run' (aligned.toId_isSome.mp known)

theorem ids_and_names_three : ∃ ids, ofList ["Type1", "Type2", "Type3"] = some ids ∧
    (∀ name id, ids.toId name = some id → ids.toString id = some name) := by
  obtain ⟨ids, run⟩ : ∃ ids, ofList ["Type1", "Type2", "Type3"] = some ids := ofList_exists (by decide)
  obtain ⟨-, back, -⟩ := ids_and_names _ ids run (by decide)
  exact ⟨ids, run, back⟩

end IdManager

end PacketComms
