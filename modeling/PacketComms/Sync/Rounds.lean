import PacketComms.Lib.Fifo

namespace PacketComms

universe u

/-- The two ends of a synchronisation. -/
inductive Role
  | server
  | client
  deriving DecidableEq

def Role.peer : Role → Role
  | .server => .client
  | .client => .server

/-- A party counts its rounds: those that it has begun, those in which it listens for messages,
those in which one has released it, those that it has answered, and those that it has left. -/
structure Party where
  entered : Nat := 0
  listened : Nat := 0
  released : Nat := 0
  answered : Nat := 0
  left : Nat := 0

/-- A message arrives. It is dropped where nobody waits for one. -/
def Party.receive (p : Party) : Party :=
  if p.released < p.listened then { p with released := p.released + 1 } else p

/-- A party goes through its rounds in order. -/
structure Party.Orderly (k : Nat) (p : Party) : Prop where
  left : p.left ≤ p.released
  released : p.released ≤ p.listened
  listened : p.listened ≤ p.entered
  entered : p.entered ≤ p.left + 1
  bound : p.entered ≤ k

theorem Party.Orderly.receive {k : Nat} {p : Party} (orderly : p.Orderly k) : p.receive.Orderly k := by
  obtain ⟨left, released, listened, entered, bound⟩ := orderly
  unfold Party.receive
  split
  · constructor <;> dsimp only <;> omega
  · constructor <;> assumption

/-- A message that arrives releases the party at most once, and does nothing else. -/
theorem Party.receive_counts (p : Party) :
    p.released ≤ p.receive.released ∧ p.receive.released ≤ p.released + 1 ∧ p.receive.left = p.left ∧
      p.receive.answered = p.answered ∧ p.receive.listened = p.listened := by
  unfold Party.receive
  split <;> simp

/-- Two parties that go through rounds together. `channel r` carries what `r` sends. All
messages look alike: nothing in them says which round they are for. -/
structure Rounds (α : Type u) where
  party : Role → Party := fun _ => {}
  channel : Role → Fifo α := fun _ => .empty

inductive RoundAction (α : Type u)
  | enter (r : Role)
  | listen (r : Role)
  | send (r : Role) (a : α)
  | deliver (r : Role)
  | leave (r : Role)

namespace Rounds

variable {α : Type u}

def setParty (s : Rounds α) (r : Role) (p : Party) : Rounds α :=
  { s with party := Function.update s.party r p }

def setChannel (s : Rounds α) (r : Role) (q : Fifo α) : Rounds α :=
  { s with channel := Function.update s.channel r q }

/-- As long as it listens the server may send, as often as it likes, and it leaves once it is
released; the client, once released, answers and leaves. -/
def step (k : Nat) (s : Rounds α) : RoundAction α → Option (Rounds α)
  | .enter r =>
    let p := s.party r
    if p.entered = p.left ∧ p.entered < k then some (s.setParty r { p with entered := p.entered + 1 })
    else none
  | .listen r =>
    let p := s.party r
    if p.listened < p.entered then some (s.setParty r { p with listened := p.listened + 1 }) else none
  | .send .server a =>
    let p := s.party .server
    if p.left < p.listened then some (s.setChannel .server ((s.channel .server).post a)) else none
  | .send .client a =>
    let p := s.party .client
    if p.answered < p.released then
      some ((s.setChannel .client ((s.channel .client).post a)).setParty .client
        { p with answered := p.answered + 1 })
    else none
  | .deliver r =>
    (s.channel r).take.map (fun (_, q) => (s.setChannel r q).setParty r.peer (s.party r.peer).receive)
  | .leave .server =>
    let p := s.party .server
    if p.left < p.released then some (s.setParty .server { p with left := p.left + 1 }) else none
  | .leave .client =>
    let p := s.party .client
    if p.left < p.answered then some (s.setParty .client { p with left := p.left + 1 }) else none

section Updates

variable (s : Rounds α) (r : Role) (p : Party) (q : Fifo α)

@[simp] theorem party_setParty : (s.setParty r p).party = Function.update s.party r p := rfl
@[simp] theorem channel_setParty : (s.setParty r p).channel = s.channel := rfl
@[simp] theorem party_setChannel : (s.setChannel r q).party = s.party := rfl
@[simp] theorem channel_setChannel : (s.setChannel r q).channel = Function.update s.channel r q := rfl

end Updates

def system (α : Type u) (k : Nat) : TransitionSystem (Rounds α) (RoundAction α) where
  start := {}
  step := step k

/-- What a step does, case by case. -/
inductive Effect (k : Nat) (s : Rounds α) : RoundAction α → Rounds α → Prop
  | entered {r} : (s.party r).entered = (s.party r).left → (s.party r).entered < k →
      Effect k s (.enter r) (s.setParty r { s.party r with entered := (s.party r).entered + 1 })
  | listened {r} : (s.party r).listened < (s.party r).entered →
      Effect k s (.listen r) (s.setParty r { s.party r with listened := (s.party r).listened + 1 })
  | sent {a} : (s.party .server).left < (s.party .server).listened →
      Effect k s (.send .server a) (s.setChannel .server ((s.channel .server).post a))
  | answered {a} : (s.party .client).answered < (s.party .client).released →
      Effect k s (.send .client a) ((s.setChannel .client ((s.channel .client).post a)).setParty .client
        { s.party .client with answered := (s.party .client).answered + 1 })
  | delivered {r a q} : (s.channel r).take = some (a, q) →
      Effect k s (.deliver r) ((s.setChannel r q).setParty r.peer (s.party r.peer).receive)
  | serverLeft : (s.party .server).left < (s.party .server).released →
      Effect k s (.leave .server) (s.setParty .server { s.party .server with left := (s.party .server).left + 1 })
  | clientLeft : (s.party .client).left < (s.party .client).answered →
      Effect k s (.leave .client) (s.setParty .client { s.party .client with left := (s.party .client).left + 1 })

theorem step_effect {k : Nat} {s s' : Rounds α} {action : RoundAction α} (run : step k s action = some s') :
    Effect k s action s' := by
  cases action with
  | enter r =>
    obtain ⟨⟨home, more⟩, same⟩ := Option.ite_none_right_eq_some.mp run
    cases same
    exact .entered home more
  | listen r =>
    obtain ⟨deaf, same⟩ := Option.ite_none_right_eq_some.mp run
    cases same
    exact .listened deaf
  | send r a =>
    cases r with
    | server =>
      obtain ⟨listens, same⟩ := Option.ite_none_right_eq_some.mp run
      cases same
      exact .sent listens
    | client =>
      obtain ⟨free, same⟩ := Option.ite_none_right_eq_some.mp run
      cases same
      exact .answered free
  | deliver r =>
    obtain ⟨⟨a, q⟩, took, rfl⟩ := Option.map_eq_some_iff.mp run
    exact .delivered took
  | leave r =>
    cases r with
    | server =>
      obtain ⟨free, same⟩ := Option.ite_none_right_eq_some.mp run
      cases same
      exact .serverLeft free
    | client =>
      obtain ⟨answered, same⟩ := Option.ite_none_right_eq_some.mp run
      cases same
      exact .clientLeft answered

/-- The two steps that mix up the rounds do not happen: no message releases the client from a
round that the server has not begun, and no answer comes while the server does not listen. -/
def Unmixed (s : Rounds α) : RoundAction α → Prop
  | .deliver .server =>
    (s.party .client).released < (s.party .client).listened → (s.party .client).released < (s.party .server).entered
  | .deliver .client => (s.party .server).left < (s.party .server).listened
  | _ => True

/-- What holds in any run: every answer is on its way or has been taken. -/
structure CountInv (k : Nat) (s : Rounds α) : Prop where
  orderly : ∀ r, (s.party r).Orderly k
  leaves : (s.party .client).left ≤ (s.party .client).answered
  answers : (s.party .client).answered ≤ (s.party .client).released
  posted : (s.channel .client).posted.length = (s.party .client).answered
  taken : (s.party .server).released ≤ (s.channel .client).taken.length

/-- Only one party moves. -/
theorem orderly_update {k : Nat} {s : Rounds α} (orderly : ∀ r, (s.party r).Orderly k) {r : Role} {p : Party}
    (moved : p.Orderly k) (r' : Role) : (Function.update s.party r p r').Orderly k := by
  by_cases same : r' = r
  · subst same
    simpa using moved
  · simpa [same] using orderly r'

theorem Effect.orderly {k : Nat} {s s' : Rounds α} {action : RoundAction α} (inv : CountInv k s)
    (effect : Effect k s action s') (r : Role) : (s'.party r).Orderly k := by
  have orderly := inv.orderly
  have leaves := inv.leaves
  have answers := inv.answers
  cases effect with
  | sent => exact orderly r
  | @delivered r => exact orderly_update orderly (orderly r.peer).receive _
  | @entered r | @listened r =>
    obtain ⟨left, released, listened, entered, bound⟩ := orderly r
    exact orderly_update orderly (by constructor <;> dsimp only <;> omega) _
  | serverLeft free =>
    obtain ⟨left, released, listened, entered, bound⟩ := orderly .server
    exact orderly_update orderly (by constructor <;> dsimp only <;> omega) _
  | answered free | clientLeft free =>
    obtain ⟨left, released, listened, entered, bound⟩ := orderly .client
    exact orderly_update orderly (by constructor <;> dsimp only <;> omega) _

/-- Everything else that a step does to the counts of the answers. -/
theorem Effect.answers {k : Nat} {s s' : Rounds α} {action : RoundAction α} (inv : CountInv k s)
    (effect : Effect k s action s') :
    (s'.party .client).left ≤ (s'.party .client).answered ∧
    (s'.party .client).answered ≤ (s'.party .client).released ∧
    (s'.channel .client).posted.length = (s'.party .client).answered ∧
    (s'.party .server).released ≤ (s'.channel .client).taken.length := by
  obtain ⟨-, leaves, answers, posted, taken⟩ := inv
  cases effect with
  | @entered r | @listened r => cases r <;> simp [leaves, answers, posted, taken]
  | sent | serverLeft => simp [leaves, answers, posted, taken]
  | answered free =>
    simp [posted, taken]
    omega
  | clientLeft free =>
    simp [answers, posted, taken]
    omega
  | @delivered r a q took =>
    obtain ⟨-, kept, more⟩ := Fifo.take_eq_some took
    obtain ⟨before, after, left, answered, -⟩ := (s.party r.peer).receive_counts
    cases r with
    | server =>
      simp only [Role.peer] at before left answered
      simp [Role.peer, left, answered, leaves, posted, taken]
      omega
    | client =>
      simp only [Role.peer] at after
      simp [Role.peer, kept, more, leaves, answers, posted]
      omega

theorem reach_countInv {k : Nat} {C : Rounds α → RoundAction α → Prop} {s : Rounds α}
    (reach : (system α k).ReachUnder C s) : CountInv k s := by
  refine reach.invariant ⟨fun _ => ?_, Nat.le_refl _, Nat.le_refl _, rfl, Nat.le_refl _⟩ ?_
  · constructor <;> exact Nat.zero_le _
  · intro s action s' _ inv _ run
    have effect := step_effect run
    obtain ⟨leaves, answers, posted, taken⟩ := effect.answers inv
    exact ⟨effect.orderly inv, leaves, answers, posted, taken⟩

/-- What holds as long as the rounds are not mixed up. -/
structure PairedInv (s : Rounds α) : Prop where
  begun : (s.party .client).released ≤ (s.party .server).entered
  heard : (s.channel .client).taken.length = (s.party .server).released

theorem Effect.pairedInv {k : Nat} {s s' : Rounds α} {action : RoundAction α} (count : CountInv k s)
    (inv : PairedInv s) (met : Unmixed s action) (effect : Effect k s action s') : PairedInv s' := by
  obtain ⟨begun, heard⟩ := inv
  cases effect with
  | @entered r | @listened r =>
    cases r with
    | server => exact ⟨begun.trans (by simp), by simpa using heard⟩
    | client => exact ⟨by simpa using begun, by simpa using heard⟩
  | sent | answered | serverLeft | clientLeft => exact ⟨by simpa using begun, by simpa using heard⟩
  | @delivered r a q took =>
    obtain ⟨-, posted, taken⟩ := Fifo.take_eq_some took
    cases r with
    | server =>
      refine ⟨?_, by simpa [Role.peer] using heard⟩
      simp only [party_setParty, party_setChannel, Role.peer, Function.update_self]
      unfold Party.receive
      split
      · rename_i waits
        exact met waits
      · exact begun
    | client =>
      -- the answer that comes is one that the server has not had, so the server still waits for it
      have fresh : (s.channel .client).taken.length < (s.channel .client).posted.length := by
        have more := q.length_balance
        rw [posted, taken, List.length_append, List.length_singleton] at more
        omega
      have waits : (s.party .server).released < (s.party .server).listened := by
        have orderly := count.orderly .server
        have listens : (s.party .server).left < (s.party .server).listened := met
        have answers := count.answers
        have answered := count.posted
        have bound := orderly.entered
        have within := orderly.listened
        omega
      refine ⟨by simpa [Role.peer, Party.receive, waits] using begun, ?_⟩
      simp [Role.peer, Party.receive, waits, taken, heard]

theorem reach_pairedInv {k : Nat} {s : Rounds α} (reach : (system α k).ReachUnder Unmixed s) : PairedInv s := by
  refine reach.invariant ⟨Nat.le_refl _, rfl⟩ ?_
  exact fun before inv met run => (step_effect run).pairedInv (reach_countInv before) inv met

/-- The server leaves a round only after the client has begun it, however messages and
rounds are mixed up. -/
theorem server_follows {k : Nat} {C : Rounds α → RoundAction α → Prop} {s : Rounds α}
    (reach : (system α k).ReachUnder C s) : (s.party .server).left ≤ (s.party .client).entered := by
  have inv := reach_countInv reach
  have server := inv.orderly .server
  have client := inv.orderly .client
  have balance := (s.channel .client).length_balance
  calc (s.party .server).left
      ≤ (s.party .server).released := server.left
    _ ≤ (s.channel .client).taken.length := inv.taken
    _ ≤ (s.party .client).answered := by rw [← inv.posted]; omega
    _ ≤ (s.party .client).released := inv.answers
    _ ≤ (s.party .client).listened := client.released
    _ ≤ (s.party .client).entered := client.listened

/-- Without a mix-up, the client leaves a round only after the server has begun it. -/
theorem client_follows {k : Nat} {s : Rounds α} (reach : (system α k).ReachUnder Unmixed s) :
    (s.party .client).left ≤ (s.party .server).entered :=
  ((reach_countInv reach).orderly .client).left.trans (reach_pairedInv reach).begun

/-- Without a mix-up, a client that has left all its rounds and whose answers have arrived has
released the server from its last round. -/
theorem server_released {k : Nat} {s : Rounds α} (reach : (system α k).ReachUnder Unmixed s)
    (left : (s.party .client).left = k) (arrived : (s.channel .client).queue = []) :
    (s.party .server).released = k := by
  have inv := reach_countInv reach
  have orderly := inv.orderly .client
  have balance := (s.channel .client).length_balance
  have heard := (reach_pairedInv reach).heard
  have posted := inv.posted
  have leaves := inv.leaves
  have answers := inv.answers
  obtain ⟨-, released, listened, -, bound⟩ := orderly
  rw [arrived, List.length_nil] at balance
  omega

theorem Effect.lost {k : Nat} {s s' : Rounds α} {action : RoundAction α} (effect : Effect k s action s')
    (lost : (s.party .server).released < (s.channel .client).taken.length) :
    (s'.party .server).released < (s'.channel .client).taken.length := by
  cases effect with
  | @entered r | @listened r => cases r <;> simpa using lost
  | sent | answered | serverLeft | clientLeft => simpa using lost
  | @delivered r a q took =>
    obtain ⟨-, -, taken⟩ := Fifo.take_eq_some took
    cases r with
    | server => simpa [Role.peer] using lost
    | client =>
      obtain ⟨-, grown, -⟩ := (s.party .server).receive_counts
      simp only [party_setParty, party_setChannel, channel_setParty, channel_setChannel, Role.peer,
        Function.update_self, taken, List.length_append, List.length_singleton]
      omega

/-- An answer that was dropped is never made up for: from then on the server does not get
through its rounds. -/
theorem lost_answer {k : Nat} {s s' : Rounds α} {actions : List (RoundAction α)} (reach : (system α k).Reach s)
    (lost : (s.party .server).released < (s.channel .client).taken.length)
    (run : (system α k).run s actions = some s') : (s'.party .server).left < k := by
  induction actions generalizing s with
  | nil =>
    have same : s = s' := Option.some.inj run
    subst same
    have inv := reach_countInv reach
    have balance := (s.channel .client).length_balance
    have posted := inv.posted
    have answers := inv.answers
    have server := (inv.orderly .server).left
    obtain ⟨-, released, listened, -, bound⟩ := inv.orderly .client
    omega
  | cons action actions ih =>
    obtain ⟨middle, first, rest⟩ := Option.bind_eq_some_iff.mp run
    exact ih (.next reach trivial first) ((step_effect first).lost lost) rest

/-- What holds in any run of the first answer: only a server that listens has sent anything, so it
still listens when the answer comes. -/
structure FirstInv (s : Rounds α) : Prop where
  told : (s.party .client).released ≤ (s.channel .server).taken.length
  listens : (s.channel .server).posted ≠ [] → 0 < (s.party .server).listened
  heard : (s.channel .client).taken ≠ [] → 0 < (s.party .server).released

/-- An answer that is on its way or has come shows that the server listens. -/
theorem FirstInv.listened {k : Nat} {s : Rounds α} (inv : FirstInv s) (count : CountInv k s)
    (sent : (s.channel .client).posted ≠ []) : 0 < (s.party .server).listened := by
  have answered := List.length_pos_of_ne_nil sent
  rw [count.posted] at answered
  have told := inv.told
  have answers := count.answers
  have balance := (s.channel .server).length_balance
  exact inv.listens (List.ne_nil_of_length_pos (by omega))

theorem Effect.firstInv {k : Nat} {s s' : Rounds α} {action : RoundAction α} (count : CountInv k s)
    (inv : FirstInv s) (effect : Effect k s action s') : FirstInv s' := by
  obtain ⟨told, listens, heard⟩ := inv
  cases effect with
  | @entered r => cases r <;> exact ⟨by simpa using told, by simpa using listens, by simpa using heard⟩
  | @listened r =>
    cases r with
    | server => exact ⟨by simpa using told, by simp, by simpa using heard⟩
    | client => exact ⟨by simpa using told, by simpa using listens, by simpa using heard⟩
  | sent listening =>
    refine ⟨by simpa using told, fun _ => ?_, by simpa using heard⟩
    simp only [party_setChannel]
    omega
  | answered | serverLeft | clientLeft => exact ⟨by simpa using told, by simpa using listens, by simpa using heard⟩
  | @delivered r a q took =>
    obtain ⟨-, posted, taken⟩ := Fifo.take_eq_some took
    obtain ⟨-, grown, -, -, listening⟩ := (s.party r.peer).receive_counts
    cases r with
    | server =>
      simp only [Role.peer] at grown
      refine ⟨?_, by simpa [Role.peer, posted] using listens, by simpa [Role.peer] using heard⟩
      simp [Role.peer, taken]
      omega
    | client =>
      simp only [Role.peer] at listening
      have sent : (s.channel .client).posted ≠ [] := by
        have balance := q.length_balance
        rw [taken, posted, List.length_append, List.length_singleton] at balance
        exact List.ne_nil_of_length_pos (by omega)
      have opens := FirstInv.listened ⟨told, listens, heard⟩ count sent
      have released : 0 < (s.party .server).receive.released := by
        unfold Party.receive
        split
        · exact Nat.succ_pos _
        · omega
      exact ⟨by simpa [Role.peer] using told, by simp [Role.peer, listening, opens], by simp [Role.peer, released]⟩

theorem reach_firstInv {k : Nat} {C : Rounds α → RoundAction α → Prop} {s : Rounds α}
    (reach : (system α k).ReachUnder C s) : FirstInv s := by
  refine reach.invariant ⟨Nat.le_refl _, fun sent => absurd rfl sent, fun came => absurd rfl came⟩ ?_
  exact fun before inv _ run => (step_effect run).firstInv (reach_countInv before) inv

/-- The first answer is not lost: once it is sent, it has released the server, or no answer has come
yet and the server listens. -/
theorem first_answer {k : Nat} {C : Rounds α → RoundAction α → Prop} {s : Rounds α}
    (reach : (system α k).ReachUnder C s) (sent : (s.channel .client).posted ≠ []) :
    0 < (s.party .server).released ∨
      (s.channel .client).taken = [] ∧ (s.party .server).left = 0 ∧ 0 < (s.party .server).listened := by
  have count := reach_countInv reach
  have first := reach_firstInv reach
  by_cases came : (s.channel .client).taken = []
  · have bound := count.taken
    have left := (count.orderly .server).left
    rw [came, List.length_nil] at bound
    exact Or.inr ⟨came, by omega, first.listened count sent⟩
  · exact Or.inl (first.heard came)

end Rounds

end PacketComms
