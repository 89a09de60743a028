import PacketComms.Muxer.Pass

namespace PacketComms

open KeyedLists

/-- Where the send thread is for one who does not see it visit empty queues. -/
def SendPc.seen (get : PacketType → List SharedPacket) : SendPc → SendPc
  | .visit types => .visit (filled get types)
  | .drain type types => if get type = [] then .visit (filled get types) else .drain type (filled get types)
  | .write type types fields ok => .write type (filled get types) fields ok
  | .assign type types ok => .assign type (filled get types) ok
  | .pop type types => .pop type (filled get types)
  | pc => pc

section Seen

variable {get : PacketType → List SharedPacket} {type : PacketType} {types : List PacketType} {pc pc' : SendPc}

theorem SendPc.seen_outside (outside : pc.pass = none) : pc.seen get = pc := by
  cases pc <;> first | rfl | cases outside

theorem SendPc.pass_seen : (pc.seen get).pass = none ↔ pc.pass = none := by
  cases pc with
  | drain type types =>
    simp only [seen]
    split <;> simp [pass]
  | _ => simp [seen, pass]

/-- Outside a pass the place is seen. -/
theorem SendPc.same_outside (place : pc'.seen get = pc.seen get) (outside : pc.pass = none) : pc' = pc := by
  rw [seen_outside outside] at place
  have outside' : (pc'.seen get).pass = none := by
    rw [place]
    exact outside
  rwa [seen_outside (pass_seen.mp outside')] at place

/-- Where the thread is when it seems to be in `sendPacket` or behind it, -/
theorem SendPc.seen_eq_write {fields : List (List Byte)} {ok : Bool}
    (place : pc.seen get = .write type types fields ok) :
    ∃ all, pc = .write type all fields ok ∧ filled get all = types := by
  cases pc with
  | write type' all fields' ok' =>
    cases place
    exact ⟨all, rfl, rfl⟩
  | drain =>
    simp only [seen] at place
    split at place <;> cases place
  | _ => cases place

theorem SendPc.seen_eq_assign {ok : Bool} (place : pc.seen get = .assign type types ok) :
    ∃ all, pc = .assign type all ok ∧ filled get all = types := by
  cases pc with
  | assign type' all ok' =>
    cases place
    exact ⟨all, rfl, rfl⟩
  | drain =>
    simp only [seen] at place
    split at place <;> cases place
  | _ => cases place

theorem SendPc.seen_eq_pop (place : pc.seen get = .pop type types) :
    ∃ all, pc = .pop type all ∧ filled get all = types := by
  cases pc with
  | pop type' all =>
    cases place
    exact ⟨all, rfl, rfl⟩
  | drain =>
    simp only [seen] at place
    split at place <;> cases place
  | _ => cases place

/-- and where it is when it seems to be at a queue or between two. -/
theorem SendPc.seen_eq_drain (place : pc.seen get = .drain type types) :
    ∃ all, pc = .drain type all ∧ filled get all = types := by
  cases pc with
  | drain type' all =>
    simp only [seen] at place
    split at place
    · cases place
    · cases place
      exact ⟨all, rfl, rfl⟩
  | _ => cases place

theorem SendPc.seen_eq_visit (place : pc.seen get = .visit types) :
    ∃ all, (pc = .visit all ∨ ∃ type, get type = [] ∧ pc = .drain type all) ∧ filled get all = types := by
  cases pc with
  | visit all =>
    cases place
    exact ⟨all, Or.inl rfl, rfl⟩
  | drain type all =>
    simp only [seen] at place
    split at place
    · rename_i empty
      cases place
      exact ⟨all, Or.inr ⟨type, empty, rfl⟩, rfl⟩
    · cases place
  | _ => cases place

/-- The next step of the send thread is not a visit of an empty queue. -/
structure SendPc.Settled (get : PacketType → List SharedPacket) (pc : SendPc) : Prop where
  visit : ∀ type types, pc = .visit (type :: types) → get type ≠ []
  drain : ∀ type types, pc = .drain type types → get type ≠ []

theorem SendPc.Settled.seen_visit (settled : pc.Settled get) (place : pc.seen get = .visit types) :
    ∃ all, pc = .visit all ∧ filled get all = types := by
  obtain ⟨all, rfl | ⟨type, empty, rfl⟩, same⟩ := seen_eq_visit place
  · exact ⟨all, rfl, same⟩
  · exact absurd empty (settled.drain type all rfl)

theorem SendPc.Settled.seen_done (settled : pc.Settled get) (place : pc.seen get = .visit []) : pc = .visit [] := by
  obtain ⟨all, rfl, none⟩ := settled.seen_visit place
  cases all with
  | nil => rfl
  | cons type all =>
    rw [filled_cons_of_filled (settled.visit type all rfl)] at none
    cases none

theorem SendPc.Settled.seen_next (settled : pc.Settled get) (place : pc.seen get = .visit (type :: types)) :
    ∃ all, pc = .visit (type :: all) ∧ filled get all = types := by
  obtain ⟨all, rfl, same⟩ := settled.seen_visit place
  cases all with
  | nil => cases same
  | cons first all =>
    rw [filled_cons_of_filled (settled.visit first all rfl)] at same
    cases same
    exact ⟨all, rfl, rfl⟩

end Seen

end PacketComms
