import Mathlib.Data.List.Flatten
import Mathlib.Data.List.Infix

universe u v

/-- An encoding that tells its own end: over `domain`, no code word followed by
anything can be read as another code word followed by anything. -/
structure PrefixCode (α : Type u) (β : Type v) where
  encode : α → List β
  domain : α → Prop
  nonempty : ∀ a, encode a ≠ []
  delimited : ∀ {a b x y}, domain a → domain b → encode a ++ x = encode b ++ y → a = b

namespace PrefixCode

variable {α : Type u} {β : Type v} (code : PrefixCode α β)

/-- The stream of a sequence of values. -/
def stream (values : List α) : List β := values.flatMap code.encode

@[simp] theorem stream_nil : code.stream [] = [] := rfl

@[simp] theorem stream_cons (a : α) (values : List α) :
    code.stream (a :: values) = code.encode a ++ code.stream values := rfl

@[simp] theorem stream_append (xs ys : List α) :
    code.stream (xs ++ ys) = code.stream xs ++ code.stream ys :=
  List.flatMap_append

theorem stream_prefix {xs ys : List α} (sub : xs <+: ys) : code.stream xs <+: code.stream ys := by
  obtain ⟨rest, rfl⟩ := sub
  rw [stream_append]
  exact List.prefix_append _ _

/-- Unique decoding, for streams of which only a part has arrived: the values read
from a prefix of a stream are a prefix of the values written. -/
theorem prefix_of_stream_prefix {xs ys : List α} (hx : ∀ a ∈ xs, code.domain a)
    (hy : ∀ a ∈ ys, code.domain a) (sub : code.stream xs <+: code.stream ys) : xs <+: ys := by
  induction xs generalizing ys with
  | nil => exact List.nil_prefix
  | cons a xs ih =>
    obtain ⟨rest, split⟩ := sub
    cases ys with
    | nil =>
      simp only [stream_cons, stream_nil, List.append_eq_nil_iff] at split
      exact absurd split.1.1 (code.nonempty a)
    | cons b ys =>
      simp only [stream_cons, List.append_assoc] at split
      have same := code.delimited (hx a List.mem_cons_self) (hy b List.mem_cons_self) split
      subst same
      have tail := List.append_cancel_left split
      exact List.prefix_cons_iff.mpr (Or.inr ⟨xs, rfl, ih (fun c member => hx c (List.mem_cons_of_mem _ member))
        (fun c member => hy c (List.mem_cons_of_mem _ member)) ⟨rest, tail⟩⟩)

/-- Of two sequences whose streams begin the same stream one begins the other. -/
theorem prefix_or_prefix {xs ys : List α} {stream : List β} (hx : ∀ a ∈ xs, code.domain a)
    (hy : ∀ a ∈ ys, code.domain a) (left : code.stream xs <+: stream) (right : code.stream ys <+: stream) :
    xs <+: ys ∨ ys <+: xs := by
  rcases List.prefix_or_prefix_of_prefix left right with within | within
  · exact Or.inl (code.prefix_of_stream_prefix hx hy within)
  · exact Or.inr (code.prefix_of_stream_prefix hy hx within)

/-- A stream of code words within another one and what follows it: either no word of it lies behind the
other's, or the first such word begins what follows. -/
theorem prefix_or_begins {xs ys : List α} {tail : List β} (hx : ∀ a ∈ xs, code.domain a)
    (hy : ∀ a ∈ ys, code.domain a) (sub : code.stream ys <+: code.stream xs ++ tail) :
    ys <+: xs ∨ ∃ b ∈ ys, code.encode b <+: tail := by
  induction xs generalizing ys with
  | nil =>
    cases ys with
    | nil => exact Or.inl List.prefix_rfl
    | cons b ys => exact Or.inr ⟨b, List.mem_cons_self, (List.prefix_append _ _).trans sub⟩
  | cons a xs ih =>
    cases ys with
    | nil => exact Or.inl List.nil_prefix
    | cons b ys =>
      obtain ⟨rest, split⟩ := sub
      simp only [stream_cons, List.append_assoc] at split
      have same := code.delimited (hy b List.mem_cons_self) (hx a List.mem_cons_self) split
      subst same
      have tails : code.stream ys <+: code.stream xs ++ tail := ⟨rest, List.append_cancel_left split⟩
      rcases ih (fun c member => hx c (List.mem_cons_of_mem _ member))
        (fun c member => hy c (List.mem_cons_of_mem _ member)) tails with within | ⟨c, member, begins⟩
      · exact Or.inl (List.cons_prefix_cons.mpr ⟨rfl, within⟩)
      · exact Or.inr ⟨c, List.mem_cons_of_mem _ member, begins⟩

/-- The code words of these values are the longest prefix of the stream made of complete code words. -/
def LongestIn (values : List α) (stream : List β) : Prop :=
  code.stream values <+: stream ∧ ∀ others, (∀ a ∈ others, code.domain a) → code.stream others <+: stream →
    code.stream others <+: code.stream values

/-- What remains behind the values begins with no complete code word. -/
theorem longestIn_of_tail {values : List α} {tail : List β} (within : ∀ a ∈ values, code.domain a)
    (incomplete : ∀ b, code.domain b → ¬ code.encode b <+: tail) :
    code.LongestIn values (code.stream values ++ tail) := by
  refine ⟨List.prefix_append _ _, fun others hy sub => ?_⟩
  rcases code.prefix_or_begins within hy sub with inside | ⟨b, member, begins⟩
  · exact code.stream_prefix inside
  · exact absurd begins (incomplete b (hy b member))

end PrefixCode
