import PacketComms.Lib.TransitionSystem
import Mathlib.Order.WellFounded

universe u v w x y z

namespace TransitionSystem

variable {σ : Type u} {α : Type v} {τ : Type w} {β : Type x}

/-- An infinite run all of whose steps meet `C`. It may pause, also for ever. -/
structure Execution (T : TransitionSystem σ α) (C : σ → α → Prop) where
  state : Nat → σ
  start : state 0 = T.start
  next : ∀ n, state (n + 1) = state n ∨ ∃ a, C (state n) a ∧ T.step (state n) a = some (state (n + 1))

/-- A step of the kind `A` can be taken. -/
def Enabled (T : TransitionSystem σ α) (C A : σ → α → Prop) (s : σ) : Prop :=
  ∃ a s', C s a ∧ A s a ∧ T.step s a = some s'

namespace Execution

variable {T : TransitionSystem σ α} {U : TransitionSystem τ β} {C : σ → α → Prop} {D : τ → β → Prop}

theorem reach (e : T.Execution C) (n : Nat) : T.ReachUnder C (e.state n) := by
  induction n with
  | zero => exact e.start ▸ .start
  | succ n ih =>
    rcases e.next n with pause | ⟨a, met, step⟩
    · exact pause ▸ ih
    · exact .next ih met step

/-- A step of the kind `A` is taken. -/
def Takes (e : T.Execution C) (A : σ → α → Prop) (n : Nat) : Prop :=
  ∃ a, C (e.state n) a ∧ A (e.state n) a ∧ T.step (e.state n) a = some (e.state (n + 1))

/-- What can be done again and again is done again and again. -/
def Fair (e : T.Execution C) (A : σ → α → Prop) : Prop :=
  (∀ n, ∃ m, n ≤ m ∧ T.Enabled C A (e.state m)) → ∀ n, ∃ m, n ≤ m ∧ e.Takes A m

/-- Whenever `P` holds, `Q` holds then or later. -/
def LeadsTo (e : T.Execution C) (P Q : σ → Prop) : Prop :=
  ∀ n, P (e.state n) → ∃ m, n ≤ m ∧ Q (e.state m)

section Always

variable {e : T.Execution C} {P Q : σ → Prop}

/-- What no step ends lasts, until something else ends it. -/
theorem lasts_until (keep : ∀ s a s', T.ReachUnder C s → P s → C s a → T.step s a = some s' → Q s' ∨ P s') {n : Nat}
    (now : P (e.state n)) (never : ∀ m, n ≤ m → ¬ Q (e.state m)) {m : Nat} (later : n ≤ m) : P (e.state m) := by
  induction m, later using Nat.le_induction with
  | base => exact now
  | succ m later ih =>
    rcases e.next m with pause | ⟨a, met, step⟩
    · exact pause ▸ ih
    · exact (keep _ a _ (e.reach m) ih met step).resolve_left (never _ (Nat.le_succ_of_le later))

theorem lasts (keep : ∀ s a s', T.ReachUnder C s → P s → C s a → T.step s a = some s' → P s') {n : Nat}
    (now : P (e.state n)) {m : Nat} (later : n ≤ m) : P (e.state m) :=
  lasts_until (Q := fun _ => False) (fun s a s' reach holds met step => Or.inr (keep s a s' reach holds met step)) now
    (fun _ _ => id) later

end Always

namespace LeadsTo

variable {e : T.Execution C} {P P' Q R : σ → Prop}

theorem of_imp (imp : ∀ s, T.ReachUnder C s → P s → Q s) : e.LeadsTo P Q :=
  fun n now => ⟨n, Nat.le_refl n, imp _ (e.reach n) now⟩

theorem trans (first : e.LeadsTo P Q) (second : e.LeadsTo Q R) : e.LeadsTo P R := by
  intro n now
  obtain ⟨m, later, middle⟩ := first n now
  obtain ⟨k, last, goal⟩ := second m middle
  exact ⟨k, Nat.le_trans later last, goal⟩

theorem mono (lead : e.LeadsTo P Q) (before : ∀ s, T.ReachUnder C s → P' s → P s)
    (after : ∀ s, T.ReachUnder C s → Q s → R s) : e.LeadsTo P' R :=
  ((of_imp before).trans lead).trans (of_imp after)

/-- A case split on the state in which it begins. -/
theorem cases (first : e.LeadsTo P R) (second : e.LeadsTo Q R) (split : ∀ s, T.ReachUnder C s → P' s → P s ∨ Q s) :
    e.LeadsTo P' R := by
  intro n now
  rcases split _ (e.reach n) now with left | right
  · exact first n left
  · exact second n right

/-- The rule of descent. Until the goal is reached no step makes the rank greater. The rank names a kind of fair
steps that make it smaller, and as long as it stays the same such a step becomes possible. -/
theorem descend {ι : Sort y} {ρ : Type z} [PartialOrder ρ] [WellFoundedLT ρ] (A : ι → σ → α → Prop)
    (fair : ∀ i, e.Fair (A i)) (rank : σ → ρ) (helper : ρ → ι)
    (keep : ∀ s a s', T.ReachUnder C s → P s → C s a → T.step s a = some s' → Q s' ∨ P s' ∧ rank s' ≤ rank s)
    (help : ∀ s a s', T.ReachUnder C s → P s → C s a → A (helper (rank s)) s a → T.step s a = some s' →
      Q s' ∨ P s' ∧ rank s' < rank s)
    (recur : ∀ n, (∀ m, n ≤ m → P (e.state m) ∧ ¬ Q (e.state m) ∧ rank (e.state m) = rank (e.state n)) →
      ∃ m, n ≤ m ∧ T.Enabled C (A (helper (rank (e.state n)))) (e.state m)) : e.LeadsTo P Q := by
  intro n now
  by_contra none
  simp only [not_exists, not_and] at none
  have stays {m k : Nat} (start : n ≤ m) (later : m ≤ k) : P (e.state k) ∧ rank (e.state k) ≤ rank (e.state m) := by
    have held : P (e.state m) := lasts_until (fun s a s' reach holds met step =>
      (keep s a s' reach holds met step).imp id And.left) now none start
    refine lasts_until (P := fun s => P s ∧ rank s ≤ rank (e.state m)) ?_ ⟨held, le_refl _⟩
      (fun k after => none k (Nat.le_trans start after)) later
    intro s a s' reach holds met step
    exact (keep s a s' reach holds.1 met step).imp id (fun kept => ⟨kept.1, kept.2.trans holds.2⟩)
  -- From a least rank on it stays the same.
  obtain ⟨r, ⟨m, start, least⟩, minimal⟩ := WellFounded.has_min (wellFounded_lt (α := ρ))
    {r | ∃ m, n ≤ m ∧ rank (e.state m) = r} ⟨_, n, Nat.le_refl n, rfl⟩
  have same {k : Nat} (later : m ≤ k) : rank (e.state k) = rank (e.state m) := by
    refine ((stays start later).2.lt_or_eq).resolve_left (fun less => ?_)
    exact minimal _ ⟨k, Nat.le_trans start later, rfl⟩ (least ▸ less)
  have often : ∀ k, ∃ l, k ≤ l ∧ T.Enabled C (A (helper (rank (e.state m)))) (e.state l) := by
    intro k
    have from_here : m ≤ max m k := Nat.le_max_left m k
    obtain ⟨l, later, enabled⟩ := recur (max m k) (fun l later => by
      have after : m ≤ l := Nat.le_trans from_here later
      exact ⟨(stays start after).1, none l (Nat.le_trans start after), (same after).trans (same from_here).symm⟩)
    exact ⟨l, Nat.le_trans (Nat.le_max_right m k) later, same from_here ▸ enabled⟩
  obtain ⟨l, later, a, met, helps, step⟩ := fair _ often m
  rcases help _ a _ (e.reach l) (stays start later).1 met (same later ▸ helps) step with goal | ⟨-, less⟩
  · exact none (l + 1) (by omega) goal
  · rw [same later, same (Nat.le_succ_of_le later)] at less
    exact lt_irrefl _ less

/-- The rule of descent for one kind of steps. The others make the rank no greater. -/
theorem descend_own {ρ : Type z} [PartialOrder ρ] [WellFoundedLT ρ] {A : σ → α → Prop} (fair : e.Fair A) (rank : σ → ρ)
    (others : ∀ s a s', T.ReachUnder C s → P s → C s a → ¬ A s a → T.step s a = some s' →
      Q s' ∨ P s' ∧ rank s' ≤ rank s)
    (own : ∀ s a s', T.ReachUnder C s → P s → C s a → A s a → T.step s a = some s' → Q s' ∨ P s' ∧ rank s' < rank s)
    (recur : ∀ n, (∀ m, n ≤ m → P (e.state m) ∧ ¬ Q (e.state m)) → ∃ m, n ≤ m ∧ T.Enabled C A (e.state m)) :
    e.LeadsTo P Q := by
  refine descend (fun _ : Unit => A) (fun _ => fair) rank (fun _ => ()) ?_ own ?_
  · intro s a s' reach holds met step
    by_cases mine : A s a
    · exact (own s a s' reach holds met mine step).imp id (fun next => ⟨next.1, next.2.le⟩)
    · exact others s a s' reach holds met mine step
  · exact fun n stays => recur n (fun m later => ⟨(stays m later).1, (stays m later).2.1⟩)

/-- The rule with one kind of steps, of which the first reaches the goal. -/
theorem once {A : σ → α → Prop} (fair : e.Fair A)
    (keep : ∀ s a s', T.ReachUnder C s → P s → C s a → T.step s a = some s' → Q s' ∨ P s')
    (help : ∀ s a s', T.ReachUnder C s → P s → C s a → A s a → T.step s a = some s' → Q s')
    (recur : ∀ n, (∀ m, n ≤ m → P (e.state m) ∧ ¬ Q (e.state m)) → ∃ m, n ≤ m ∧ T.Enabled C A (e.state m)) :
    e.LeadsTo P Q := by
  refine descend_own fair (fun _ => 0) ?_ ?_ recur
  · exact fun s a s' reach holds met _ step => (keep s a s' reach holds met step).imp id (fun kept => ⟨kept, le_rfl⟩)
  · exact fun s a s' reach holds met helps step => Or.inl (help s a s' reach holds met helps step)

end LeadsTo

theorem Fair.of_never {e : T.Execution C} {A : σ → α → Prop} (never : ∀ n, ¬ T.Enabled C A (e.state n)) : e.Fair A := by
  intro often
  obtain ⟨m, -, enabled⟩ := often 0
  exact absurd enabled (never m)

/-- Fairness to a thread is fairness to the steps it takes at a place that it leaves by such a step only. -/
theorem Fair.place {e : T.Execution C} {A B : σ → α → Prop} (fair : e.Fair A) (P : σ → Prop)
    (at_place : ∀ s, T.ReachUnder C s → T.Enabled C B s → P s ∧ T.Enabled C A s)
    (stays : ∀ s a s', T.ReachUnder C s → P s → C s a → T.step s a = some s' → B s a ∨ P s')
    (own : ∀ s a s', T.ReachUnder C s → P s → C s a → A s a → T.step s a = some s' → B s a) : e.Fair B := by
  intro often n
  by_contra none
  simp only [not_exists, not_and] at none
  obtain ⟨m, later, enabled⟩ := often n
  have here {k : Nat} (after : m ≤ k) : P (e.state k) := by
    induction k, after using Nat.le_induction with
    | base => exact (at_place _ (e.reach m) enabled).1
    | succ k after ih =>
      rcases e.next k with pause | ⟨a, met, step⟩
      · exact pause ▸ ih
      · refine (stays _ a _ (e.reach k) ih met step).resolve_left (fun kind => ?_)
        exact none k (Nat.le_trans later after) ⟨a, met, kind, step⟩
  obtain ⟨k, after, a, met, kind, step⟩ := fair (fun k => by
    obtain ⟨l, after, enabled⟩ := often k
    exact ⟨l, after, (at_place _ (e.reach l) enabled).2⟩) m
  exact none k (Nat.le_trans later after) ⟨a, met, own _ a _ (e.reach k) (here after) met kind step, step⟩

section Component

variable (e : T.Execution C) (f : σ → τ) (start : f T.start = U.start)
  (step : ∀ {s a s'}, T.ReachUnder C s → C s a → T.step s a = some s' →
    f s' = f s ∨ ∃ b, D (f s) b ∧ U.step (f s) b = some (f s'))

/-- What an execution does to a component is an execution of the component. -/
def component : U.Execution D where
  state n := f (e.state n)
  start := by rw [e.start, start]
  next n := by
    rcases e.next n with pause | ⟨a, met, run⟩
    · exact Or.inl (congrArg f pause)
    · exact step (e.reach n) met run

/-- Fairness to the steps of a component. -/
theorem Fair.component {e : T.Execution C} {A : σ → α → Prop} {B : τ → β → Prop} (fair : e.Fair A)
    (enables : ∀ s, T.ReachUnder C s → U.Enabled D B (f s) → T.Enabled C A s)
    (takes : ∀ s a s', T.ReachUnder C s → C s a → A s a → T.step s a = some s' →
      ∃ b, D (f s) b ∧ B (f s) b ∧ U.step (f s) b = some (f s')) : (e.component f start step).Fair B := by
  intro often n
  obtain ⟨m, later, a, met, kind, run⟩ := fair (fun k => by
    obtain ⟨m, later, enabled⟩ := often k
    exact ⟨m, later, enables _ (e.reach m) enabled⟩) n
  exact ⟨m, later, takes _ a _ (e.reach m) met kind run⟩

end Component

section Finite

variable {C : σ → α → Prop} {actions : List α} {s : σ}

/-- Each of the actions meets `C` in its turn. -/
def Meets (T : TransitionSystem σ α) (C : σ → α → Prop) : σ → List α → Prop
  | _, [] => True
  | s, a :: actions => C s a ∧ ∀ s', T.step s a = some s' → Meets T C s' actions

theorem Meets.of_forall {T : TransitionSystem σ α} (met : ∀ a ∈ actions, ∀ s, C s a) (s : σ) : Meets T C s actions := by
  induction actions generalizing s with
  | nil => trivial
  | cons a actions ih =>
    exact ⟨met a List.mem_cons_self s, fun s' _ => ih (fun b member => met b (List.mem_cons_of_mem a member)) s'⟩

theorem Meets.next {T : TransitionSystem σ α} {start middle : σ} (met : Meets T C start actions) {n : Nat}
    (more : n < actions.length) (run : T.run start (actions.take n) = some middle) : C middle actions[n] := by
  induction actions generalizing start n with
  | nil => cases more
  | cons a actions ih =>
    cases n with
    | zero =>
      cases Option.some.inj run
      exact met.1
    | succ n =>
      obtain ⟨s', step, rest⟩ := Option.bind_eq_some_iff.mp run
      exact ih (met.2 s' step) (Nat.lt_of_succ_lt_succ more) rest

theorem Meets.checked {T : TransitionSystem σ α} [∀ s a, Decidable (C s a)] {start : σ}
    (run : T.runUnder C start actions = some s) : Meets T C start actions ∧ T.run start actions = some s := by
  induction actions generalizing start with
  | nil => exact ⟨trivial, run⟩
  | cons a actions ih =>
    simp only [runUnder, Option.ite_none_right_eq_some] at run
    obtain ⟨met, run⟩ := run
    obtain ⟨middle, step, rest⟩ := Option.bind_eq_some_iff.mp run
    have later := ih rest
    refine ⟨⟨met, fun s' step' => ?_⟩, by rw [TransitionSystem.run, step]; exact later.2⟩
    cases Option.some.inj (step.symm.trans step')
    exact later.1

/-- The states after the first of some actions; behind the last one the state remains. -/
def stateAfter (T : TransitionSystem σ α) (begun : σ) (actions : List α) (s : σ) (n : Nat) : σ :=
  (T.run begun (actions.take n)).getD s

section StateAfter

variable {T : TransitionSystem σ α} {begun : σ}

theorem stateAfter_last (run : T.run begun actions = some s) {n : Nat} (past : actions.length ≤ n) :
    stateAfter T begun actions s n = s := by
  simp only [stateAfter, List.take_of_length_le past, run, Option.getD_some]

theorem stateAfter_step (met : Meets T C begun actions) (run : T.run begun actions = some s) {n : Nat}
    (more : n < actions.length) : C (stateAfter T begun actions s n) actions[n] ∧
      T.step (stateAfter T begun actions s n) actions[n] = some (stateAfter T begun actions s (n + 1)) := by
  unfold stateAfter
  rw [List.take_succ_eq_append_getElem more]
  have whole : T.run begun (actions.take n ++ actions.drop n) = some s := by rwa [List.take_append_drop]
  rw [run_append] at whole
  obtain ⟨before, first, rest⟩ := Option.bind_eq_some_iff.mp whole
  rw [List.drop_eq_getElem_cons more] at rest
  obtain ⟨after, step, -⟩ := Option.bind_eq_some_iff.mp rest
  have next : T.run begun (actions.take n ++ [actions[n]]) = some after := by
    rw [run_append, first]
    simp only [Option.bind_some, TransitionSystem.run, step]
  have permitted := met.next more first
  rw [first, next]
  exact ⟨permitted, step⟩

end StateAfter

theorem stateAfter_next {T : TransitionSystem σ α} (met : Meets T C T.start actions)
    (run : T.run T.start actions = some s) (n : Nat) :
    stateAfter T T.start actions s (n + 1) = stateAfter T T.start actions s n ∨
      ∃ a, C (stateAfter T T.start actions s n) a ∧
        T.step (stateAfter T T.start actions s n) a = some (stateAfter T T.start actions s (n + 1)) := by
  by_cases more : n < actions.length
  · exact Or.inr ⟨actions[n], stateAfter_step met run more⟩
  · rw [stateAfter_last run (by omega), stateAfter_last run (by omega)]
    exact Or.inl rfl

/-- The execution that takes some actions and then pauses for ever. -/
def ofRun (T : TransitionSystem σ α) (actions : List α) (met : Meets T C T.start actions)
    (run : T.run T.start actions = some s) : T.Execution C where
  state := stateAfter T T.start actions s
  start := rfl
  next := stateAfter_next met run

theorem ofRun_last {met : Meets T C T.start actions} {run : T.run T.start actions = some s} {n : Nat}
    (past : actions.length ≤ n) : (ofRun T actions met run).state n = s :=
  stateAfter_last run past

/-- It is fair to what cannot be done in the end. -/
theorem fair_ofRun {met : Meets T C T.start actions} {run : T.run T.start actions = some s} {A : σ → α → Prop}
    (past : ¬ T.Enabled C A s) : (ofRun T actions met run).Fair A := by
  intro often
  obtain ⟨m, later, enabled⟩ := often actions.length
  rw [ofRun_last later] at enabled
  exact absurd enabled past

end Finite

section Endless

variable {C : σ → α → Prop}

/-- An endless plan: turn after turn some actions, each turn from where the one before has led. -/
structure Turns (T : TransitionSystem σ α) (C : σ → α → Prop) where
  begun : Nat → σ
  turn : Nat → List α
  start : begun 0 = T.start
  busy : ∀ k, 0 < (turn k).length
  met : ∀ k, Meets T C (begun k) (turn k)
  run : ∀ k, T.run (begun k) (turn k) = some (begun (k + 1))

namespace Turns

variable {T : TransitionSystem σ α} (turns : Turns T C)

/-- The turn of the n-th step, and its place there. -/
def place : Nat → Nat × Nat
  | 0 => (0, 0)
  | n + 1 =>
    if (place n).2 + 1 < (turns.turn (place n).1).length then ((place n).1, (place n).2 + 1) else ((place n).1 + 1, 0)

/-- The state at a place of a turn. -/
def stateAt (k j : Nat) : σ := stateAfter T (turns.begun k) (turns.turn k) (turns.begun (k + 1)) j

theorem stateAt_zero (k : Nat) : turns.stateAt k 0 = turns.begun k := rfl

theorem stateAt_last (k : Nat) : turns.stateAt k (turns.turn k).length = turns.begun (k + 1) :=
  stateAfter_last (turns.run k) (Nat.le_refl _)

theorem place_inside (n : Nat) : (turns.place n).2 < (turns.turn (turns.place n).1).length := by
  induction n with
  | zero => exact turns.busy 0
  | succ n ih =>
    simp only [place]
    split
    · assumption
    · exact turns.busy _

theorem stateAt_next (n : Nat) : turns.stateAt (turns.place (n + 1)).1 (turns.place (n + 1)).2 =
    turns.stateAt (turns.place n).1 ((turns.place n).2 + 1) := by
  have inside := turns.place_inside n
  by_cases more : (turns.place n).2 + 1 < (turns.turn (turns.place n).1).length
  · simp only [place, more, if_true]
  · have last : (turns.place n).2 + 1 = (turns.turn (turns.place n).1).length := by omega
    rw [last, stateAt_last]
    simp only [place, more, if_false, stateAt_zero]

/-- The execution that keeps to the plan. -/
def execution : T.Execution C where
  state n := turns.stateAt (turns.place n).1 (turns.place n).2
  start := turns.start
  next n := by
    obtain ⟨met, step⟩ := stateAfter_step (turns.met _) (turns.run _) (turns.place_inside n)
    refine Or.inr ⟨_, met, step.trans (congrArg some ?_)⟩
    exact (turns.stateAt_next n).symm

theorem place_within {n k j : Nat} (now : turns.place n = (k, 0)) (inside : j < (turns.turn k).length) :
    turns.place (n + j) = (k, j) := by
  induction j with
  | zero => exact now
  | succ j ih =>
    have before := ih (Nat.lt_of_succ_lt inside)
    rw [← Nat.add_assoc, place, before]
    simp only [inside, if_true]

/-- Every turn comes, and later than any number of turns before. -/
theorem place_turn (k : Nat) : ∃ n, k ≤ n ∧ turns.place n = (k, 0) := by
  induction k with
  | zero => exact ⟨0, Nat.le_refl 0, rfl⟩
  | succ k ih =>
    obtain ⟨n, late, now⟩ := ih
    have busy := turns.busy k
    have last := turns.place_within now (j := (turns.turn k).length - 1) (by omega)
    refine ⟨n + ((turns.turn k).length - 1) + 1, by omega, ?_⟩
    rw [place, last]
    have whole : ¬ (turns.turn k).length - 1 + 1 < (turns.turn k).length := by omega
    simp only [whole, if_false]

theorem execution_begun (k : Nat) : ∃ n, k ≤ n ∧ turns.execution.state n = turns.begun k := by
  obtain ⟨n, late, now⟩ := turns.place_turn k
  exact ⟨n, late, by simp only [execution, now, stateAt_zero]⟩

theorem place_mono (n : Nat) : (turns.place n).1 ≤ (turns.place (n + 1)).1 := by
  simp only [place]
  split <;> simp

/-- What the actions of a turn keep is true all through it. -/
theorem stateAt_keeps {P : σ → Prop} {k : Nat} (start : P (turns.begun k))
    (keep : ∀ s a s', P s → a ∈ turns.turn k → T.step s a = some s' → P s') {j : Nat}
    (inside : j ≤ (turns.turn k).length) : P (turns.stateAt k j) := by
  induction j with
  | zero => exact start
  | succ j ih =>
    obtain ⟨-, step⟩ := stateAfter_step (turns.met k) (turns.run k) inside
    exact keep _ _ _ (ih (Nat.le_of_succ_le inside)) (List.getElem_mem inside) step

/-- It is fair to what happens in each turn but the first one. -/
theorem fair_of_taken {A : σ → α → Prop} (taken : ∀ k, ∃ a ∈ turns.turn (k + 1), ∀ s, A s a) :
    turns.execution.Fair A := by
  intro _ n
  obtain ⟨m, late, now⟩ := turns.place_turn (n + 1)
  obtain ⟨a, member, kind⟩ := taken n
  obtain ⟨j, inside, rfl⟩ := List.mem_iff_getElem.mp member
  have here := turns.place_within now inside
  obtain ⟨met, step⟩ := stateAfter_step (turns.met (n + 1)) (turns.run (n + 1)) inside
  have state : turns.execution.state (m + j) = turns.stateAt (n + 1) j := by simp only [execution, here]
  have next : turns.execution.state (m + j + 1) = turns.stateAt (n + 1) (j + 1) := by
    have moved := turns.stateAt_next (m + j)
    rw [here] at moved
    exact moved
  refine ⟨m + j, by omega, _, state.symm ▸ met, kind _, ?_⟩
  rw [state, next]
  exact step

/-- It is fair to what becomes possible in the first turn only. -/
theorem fair_of_never {A : σ → α → Prop}
    (never : ∀ k j, j < (turns.turn (k + 1)).length → ¬ T.Enabled C A (turns.stateAt (k + 1) j)) :
    turns.execution.Fair A := by
  intro often
  obtain ⟨n, -, now⟩ := turns.place_turn 1
  have past {m : Nat} (later : n ≤ m) : 1 ≤ (turns.place m).1 := by
    induction m, later using Nat.le_induction with
    | base => rw [now]
    | succ m _ ih => exact Nat.le_trans ih (turns.place_mono m)
  obtain ⟨m, later, enabled⟩ := often n
  obtain ⟨k, number⟩ := Nat.exists_eq_add_of_le' (past later)
  have inside := turns.place_inside m
  simp only [execution] at enabled
  rw [number] at enabled inside
  exact absurd enabled (never k _ inside)

/-- A plan whose turns lead from one good state to another, whatever the choices. -/
theorem exists_turns {P : σ → Prop} {K : List α → Prop} {actions : List α} {s : σ} (busy : 0 < actions.length)
    (met : Meets T C T.start actions) (run : T.run T.start actions = some s) (here : P s)
    (again : ∀ s, P s → ∃ turn s', 0 < turn.length ∧ K turn ∧ Meets T C s turn ∧ T.run s turn = some s' ∧ P s') :
    ∃ turns : Turns T C, ∀ k, P (turns.begun (k + 1)) ∧ K (turns.turn (k + 1)) := by
  choose turn last nonempty kind meets runs stays using again
  let visited (k : Nat) : {s // P s} := Nat.rec ⟨s, here⟩ (fun _ now => ⟨last now.1 now.2, stays now.1 now.2⟩) k
  let begun : Nat → σ
    | 0 => T.start
    | k + 1 => (visited k).1
  let plan : Nat → List α
    | 0 => actions
    | k + 1 => turn (visited k).1 (visited k).2
  refine ⟨⟨begun, plan, rfl, fun k => ?_, fun k => ?_, fun k => ?_⟩, fun k => ⟨(visited k).2, kind _ _⟩⟩
  · cases k with
    | zero => exact busy
    | succ k => exact nonempty _ _
  · cases k with
    | zero => exact met
    | succ k => exact meets _ _
  · cases k with
    | zero => exact run
    | succ k => exact runs _ _

end Turns

end Endless

end Execution

end TransitionSystem
